import Mathlib.Data.Prod.Lex
import Mathlib.Order.WithBot
import PgxBackup.BackupJobSafe
import PgxBackup.RestoreJob

/-!
# Every file of a manifest is restored by exactly one job

The comparator is the order of a key. Files with the same bundle and the same
reference have keys that follow one another, so that a job which is begun with
a file of a bundle gets all of its files that are in the queue with a size,
and the order of their keys is that of their offsets.
-/

namespace PgxBackup

open List

/-! ## The order of a queue -/

/-- A reference in the order of the queue: no reference is last. -/
def referenceKey : Option Str → WithTop Str
  | some reference => reference
  | none => ⊤

theorem referenceKey_injective {a b : Option Str} (h : referenceKey a = referenceKey b) : a = b := by
  cases a with
  | none =>
    cases b with
    | none => rfl
    | some b => exact absurd h.symm (WithTop.coe_ne_top)
  | some a =>
    cases b with
    | none => exact absurd h (WithTop.coe_ne_top)
    | some b => exact congrArg some (WithTop.coe_injective h)

/-- What the comparator compares: zero length last, the bundle, and then for
files that are not in a bundle the size, largest first, and the name, last
first, for files in a bundle the reference, none last, and the offset. -/
def restoreQueueKey (file : ManifestFile) : ℕ ×ₗ ℕ ×ₗ (ℤ ×ₗ Strᵒᵈ) ×ₗ (WithTop Str ×ₗ ℕ) :=
  toLex (if file.size = 0 then 1 else 0, toLex (file.bundleId,
    if file.bundleId = 0 then
      toLex (toLex (-(file.size : ℤ), OrderDual.toDual file.name), toLex (⊤, 0))
    else
      toLex (toLex (0, OrderDual.toDual []),
        toLex (referenceKey file.reference, file.bundleOffset))))

variable {file1 file2 : ManifestFile}

theorem restoreProcessQueueCompare_offset (file1 file2 : ManifestFile) :
    ((restoreProcessQueueCompare.offset file1 file2).2 < 0 ↔ file1.bundleOffset < file2.bundleOffset) ∧
      ((restoreProcessQueueCompare.offset file1 file2).1 = true ↔
        file1.bundleOffset ≠ file2.bundleOffset) := by
  unfold restoreProcessQueueCompare.offset
  refine ⟨?_, decide_eq_true_iff⟩
  dsimp only
  split
  next h => exact ⟨fun _ => h, fun _ => by decide⟩
  next h => exact ⟨fun h' => absurd h' (by decide), fun h' => absurd h' h⟩

/-- **The comparator is the order of the keys**, and its assertions say that the
keys differ. -/
theorem restoreProcessQueueCompare_key (file1 file2 : ManifestFile) :
    (restoreProcessQueueComparator file1 file2 < 0 ↔ restoreQueueKey file1 < restoreQueueKey file2) ∧
      (restoreProcessQueueComparatorAssert file1 file2 = true ↔
        restoreQueueKey file1 ≠ restoreQueueKey file2) := by
  unfold restoreProcessQueueComparator restoreProcessQueueComparatorAssert restoreProcessQueueCompare
    restoreQueueKey
  rw [Prod.Lex.toLex_lt_toLex, Prod.Lex.toLex_lt_toLex]
  simp only [ne_eq, toLex_inj, Prod.mk.injEq]
  split
  next h => simp [h.1, h.2]
  next h =>
    split
    next h' => simp [h'.1, h'.2]
    next h' =>
      have hzero : (if file1.size = 0 then 1 else 0) = (if file2.size = 0 then 1 else 0) := by
        split <;> split <;> simp_all
      rw [hzero]
      simp only [lt_irrefl, true_and, false_or]
      split
      next hlt => simp [hlt, hlt.ne]
      next hlt =>
        split
        next hgt => simp [hgt.ne', hgt.asymm]
        next hgt =>
          have hbundle : file1.bundleId = file2.bundleId := by omega
          rw [hbundle]
          simp only [lt_irrefl, true_and, false_or]
          by_cases hunbundled : file2.bundleId = 0
          · -- by size and name
            rw [if_pos hunbundled, if_pos hunbundled, if_pos hunbundled, Prod.Lex.toLex_lt_toLex,
              Prod.Lex.toLex_lt_toLex]
            simp only [toLex_inj, Prod.mk.injEq, lt_irrefl, and_false, or_false, and_true,
              OrderDual.toDual_lt_toDual, OrderDual.toDual_inj]
            split
            next hlt => exact ⟨by simp; omega, by simp; omega⟩
            next hlt =>
              split
              next hgt => exact ⟨by simp; omega, by simp; omega⟩
              next hgt =>
                have hsize : file1.size = file2.size := by omega
                rw [hsize]
                simp [strCmp_neg]
          · -- by reference and offset
            rw [if_neg hunbundled, if_neg hunbundled, if_neg hunbundled]
            simp only [Prod.Lex.toLex_lt_toLex, toLex_inj, Prod.mk.injEq, lt_irrefl, true_and, false_or]
            have hoffset := restoreProcessQueueCompare_offset file1 file2
            cases href1 : file1.reference with
            | none =>
              cases href2 : file2.reference with
              | none => simpa [referenceKey] using hoffset
              | some reference2 => simp [referenceKey]
            | some reference1 =>
              cases href2 : file2.reference with
              | none => simp [referenceKey]
              | some reference2 =>
                simp only [referenceKey, WithTop.coe_lt_coe, WithTop.coe_inj]
                have hneg := strCmp_neg (a := reference2) (b := reference1)
                have hpos := strCmp_pos (a := reference2) (b := reference1)
                split
                next hne =>
                  have href : reference1 ≠ reference2 := by
                    rintro rfl
                    have hzero : strCmp reference1 reference1 = 0 := by simp [strCmp]
                    omega
                  simp only [href, false_and, or_false, not_false_eq_true]
                  exact ⟨by rw [← hpos]; omega, trivial⟩
                next heq =>
                  have hzero : strCmp reference2 reference1 = 0 := by omega
                  rw [hzero] at hneg hpos
                  obtain rfl : reference1 = reference2 :=
                    le_antisymm (not_lt.mp (by simpa using hneg)) (not_lt.mp (by simpa using hpos))
                  simpa using hoffset

/-- The result is not zero when the assertions hold. -/
theorem restoreProcessQueueComparator_ne_zero
    (h : restoreProcessQueueComparatorAssert file1 file2 = true) :
    restoreProcessQueueComparator file1 file2 ≠ 0 := by
  have hoffset : (restoreProcessQueueCompare.offset file1 file2).2 ≠ 0 := by
    unfold restoreProcessQueueCompare.offset
    dsimp only
    split <;> decide
  revert h
  unfold restoreProcessQueueComparator restoreProcessQueueComparatorAssert restoreProcessQueueCompare
  intro h
  split_ifs at h ⊢
  · decide
  · decide
  · decide
  · decide
  · decide
  · decide
  · intro hzero
    exact (of_decide_eq_true h) (strCmp_eq_zero.mp hzero).symm
  · split
    · decide
    · decide
    · split_ifs with hne
      · exact hne
      · exact hoffset
    · exact hoffset

/-- Two files have one key when they compare alike. -/
theorem restoreQueueKey_eq_iff : restoreQueueKey file1 = restoreQueueKey file2 ↔
    (file1.size = 0 ↔ file2.size = 0) ∧ file1.bundleId = file2.bundleId ∧
      (file1.bundleId = 0 → file1.size = file2.size ∧ file1.name = file2.name) ∧
      (file1.bundleId ≠ 0 → file1.reference = file2.reference ∧
        file1.bundleOffset = file2.bundleOffset) := by
  unfold restoreQueueKey
  simp only [toLex_inj, Prod.mk.injEq]
  have hzero : ((if file1.size = 0 then 1 else 0) = (if file2.size = 0 then 1 else 0)) ↔
      (file1.size = 0 ↔ file2.size = 0) := by
    split <;> split <;> simp_all
  rw [hzero]
  refine and_congr_right (fun _ => and_congr_right (fun hbundle => ?_))
  rw [hbundle]
  by_cases hunbundled : file2.bundleId = 0
  · simp [hunbundled]
  · have href : referenceKey file1.reference = referenceKey file2.reference ↔
        file1.reference = file2.reference :=
      ⟨referenceKey_injective, fun h => by rw [h]⟩
    simp [hunbundled, href]

/-- **The comparator is a strict total order on a queue.** -/
structure RestoreQueueStrict (queue : List ManifestFile) : Prop where
  assert : ∀ file1 ∈ queue, ∀ file2 ∈ queue, file1 ≠ file2 →
    restoreProcessQueueComparatorAssert file1 file2 = true
  total : ∀ file1 ∈ queue, ∀ file2 ∈ queue, file1 ≠ file2 →
    (restoreProcessQueueComparator file1 file2 < 0 ∧ 0 < restoreProcessQueueComparator file2 file1) ∨
      (restoreProcessQueueComparator file2 file1 < 0 ∧ 0 < restoreProcessQueueComparator file1 file2)
  irrefl : ∀ file ∈ queue, ¬ restoreProcessQueueComparator file file < 0
  trans : ∀ file1 ∈ queue, ∀ file2 ∈ queue, ∀ file3 ∈ queue,
    restoreProcessQueueComparator file1 file2 < 0 → restoreProcessQueueComparator file2 file3 < 0 →
    restoreProcessQueueComparator file1 file3 < 0

variable {queue : List ManifestFile}

theorem restoreQueueStrict_of_keys
    (h : ∀ file1 ∈ queue, ∀ file2 ∈ queue, file1 ≠ file2 →
      restoreQueueKey file1 ≠ restoreQueueKey file2) : RestoreQueueStrict queue := by
  have hpos : ∀ {file1 file2 : ManifestFile}, restoreQueueKey file1 < restoreQueueKey file2 →
      0 < restoreProcessQueueComparator file2 file1 := by
    intro file1 file2 hlt
    have hne := restoreProcessQueueComparator_ne_zero ((restoreProcessQueueCompare_key _ _).2.mpr hlt.ne')
    have hnneg := (restoreProcessQueueCompare_key file2 file1).1.not.mpr hlt.asymm
    omega
  refine ⟨?_, ?_, ?_, ?_⟩
  · intro file1 hfile1 file2 hfile2 hne
    exact (restoreProcessQueueCompare_key _ _).2.mpr (h file1 hfile1 file2 hfile2 hne)
  · intro file1 hfile1 file2 hfile2 hne
    rcases lt_or_gt_of_ne (h file1 hfile1 file2 hfile2 hne) with hlt | hgt
    · exact Or.inl ⟨(restoreProcessQueueCompare_key _ _).1.mpr hlt, hpos hlt⟩
    · exact Or.inr ⟨(restoreProcessQueueCompare_key _ _).1.mpr hgt, hpos hgt⟩
  · intro file _ hneg
    exact lt_irrefl _ ((restoreProcessQueueCompare_key _ _).1.mp hneg)
  · intro file1 _ file2 _ file3 _ h12 h23
    rw [(restoreProcessQueueCompare_key _ _).1] at h12 h23 ⊢
    exact h12.trans h23

instance : Std.Total (fun file1 file2 : ManifestFile =>
    ¬ restoreProcessQueueComparator file2 file1 < 0) where
  total file1 file2 := by
    rw [(restoreProcessQueueCompare_key _ _).1, (restoreProcessQueueCompare_key _ _).1, not_lt, not_lt]
    exact le_total _ _

instance : IsTrans ManifestFile (fun file1 file2 =>
    ¬ restoreProcessQueueComparator file2 file1 < 0) where
  trans file1 file2 file3 := by
    rw [(restoreProcessQueueCompare_key _ _).1, (restoreProcessQueueCompare_key _ _).1,
      (restoreProcessQueueCompare_key _ _).1, not_lt, not_lt, not_lt]
    exact le_trans

/-- **A sorted queue has the order of the keys.** -/
theorem pairwise_restoreProcessQueueSort (queue : List ManifestFile) :
    (restoreProcessQueueSort queue).Pairwise
      (fun file1 file2 => restoreQueueKey file1 ≤ restoreQueueKey file2) := by
  refine (pairwise_insertionSort _ queue).imp (fun {file1 file2} hle => ?_)
  rwa [(restoreProcessQueueCompare_key _ _).1, not_lt] at hle

/-! ## The queues -/

variable {manifest : Manifest} {config : RestoreJobConfig}

/-- The files of a queue belong to its target. -/
def RestoreQueuesPlaced (manifest : Manifest) (queueList : List (List ManifestFile)) : Prop :=
  ∀ (targetIdx : ℕ) queue, queueList[targetIdx]? = some queue → ∀ file ∈ queue,
    manifest.targetPathList.findIdx? (strBeginsWith file.name) = some targetIdx

theorem restoreProcessQueueAdd_ok {queueList : List (List ManifestFile)} {file : ManifestFile}
    (hlength : queueList.length = manifest.targetPathList.length)
    (hplaced : RestoreQueuesPlaced manifest queueList)
    (htarget : ∃ targetPath ∈ manifest.targetPathList, strBeginsWith file.name targetPath = true) :
    ∃ queueList', restoreProcessQueueAdd manifest queueList file = .ok queueList' ∧
      queueList'.length = manifest.targetPathList.length ∧
      RestoreQueuesPlaced manifest queueList' ∧
      queueList'.flatten.Perm (file :: queueList.flatten) := by
  obtain ⟨targetPath, hmem, hbegins⟩ := htarget
  cases hidx : manifest.targetPathList.findIdx? (strBeginsWith file.name) with
  | none => exact absurd hbegins (by simpa using findIdx?_eq_none_iff.mp hidx targetPath hmem)
  | some targetIdx =>
    have hlt := (findIdx?_eq_some_iff_getElem.mp hidx).1
    refine ⟨queueList.modify targetIdx (fun queue => queue ++ [file]), ?_, ?_, ?_, ?_⟩
    · unfold restoreProcessQueueAdd restoreProcessQueueIdx
      rw [hidx]
      rfl
    · rw [length_modify, hlength]
    · intro i queue hqueue file' hfile'
      rw [getElem?_modify] at hqueue
      obtain ⟨queue', hqueue', heq⟩ := Option.map_eq_some_iff.mp hqueue
      by_cases hi : targetIdx = i
      · subst hi
        rw [if_pos rfl] at heq
        subst heq
        rcases mem_append.mp hfile' with hfile' | hfile'
        · exact hplaced targetIdx queue' hqueue' file' hfile'
        · obtain rfl := mem_singleton.mp hfile'
          exact hidx
      · rw [if_neg hi] at heq
        subst heq
        exact hplaced i _ hqueue' file' hfile'
    · exact Queues.flatten_modify_perm (by rw [hlength]; exact hlt) file

theorem restoreProcessQueueAdd_foldlM (fileList : List ManifestFile)
    (htargets : ∀ file ∈ fileList, ∃ targetPath ∈ manifest.targetPathList,
      strBeginsWith file.name targetPath = true) :
    ∀ {queueList : List (List ManifestFile)}, queueList.length = manifest.targetPathList.length →
    RestoreQueuesPlaced manifest queueList →
    ∃ queueList', fileList.foldlM (restoreProcessQueueAdd manifest) queueList = .ok queueList' ∧
      queueList'.length = manifest.targetPathList.length ∧
      RestoreQueuesPlaced manifest queueList' ∧
      queueList'.flatten.Perm (fileList ++ queueList.flatten) := by
  induction fileList with
  | nil =>
    intro queueList hlength hplaced
    exact ⟨queueList, rfl, hlength, hplaced, List.Perm.refl _⟩
  | cons file fileList ih =>
    intro queueList hlength hplaced
    rw [forall_mem_cons] at htargets
    obtain ⟨queueList₁, hadd, hlength₁, hplaced₁, hperm₁⟩ :=
      restoreProcessQueueAdd_ok hlength hplaced htargets.1
    obtain ⟨queueList₂, hfold, hlength₂, hplaced₂, hperm₂⟩ := ih htargets.2 hlength₁ hplaced₁
    refine ⟨queueList₂, ?_, hlength₂, hplaced₂, ?_⟩
    · rw [foldlM_cons, hadd]
      exact hfold
    · exact hperm₂.trans ((hperm₁.append_left _).trans perm_middle)

/-- **The queues hold the files of the manifest.** -/
theorem restoreProcessQueue_ok
    (htargets : ∀ file ∈ manifest.fileList, ∃ targetPath ∈ manifest.targetPathList,
      strBeginsWith file.name targetPath = true) :
    ∃ size queueList, restoreProcessQueue manifest = .ok (size, queueList) ∧
      queueList.length = manifest.targetPathList.length ∧
      RestoreQueuesPlaced manifest queueList ∧
      queueList.flatten.Perm manifest.fileList ∧
      ∀ queue ∈ queueList, queue.Pairwise
        (fun file1 file2 => restoreQueueKey file1 ≤ restoreQueueKey file2) := by
  have hempty : RestoreQueuesPlaced manifest (replicate manifest.targetPathList.length []) := by
    intro i queue hqueue file hmem
    rw [eq_of_mem_replicate (mem_of_getElem? hqueue)] at hmem
    cases hmem
  obtain ⟨queueList, hfold, hlength, hplaced, hperm⟩ :=
    restoreProcessQueueAdd_foldlM manifest.fileList htargets length_replicate hempty
  simp only [flatten_replicate_nil, append_nil] at hperm
  refine ⟨u64 (manifest.fileList.map ManifestFile.size).sum,
    queueList.map restoreProcessQueueSort, ?_, ?_, ?_, ?_, ?_⟩
  · unfold restoreProcessQueue
    rw [hfold]
    rfl
  · rw [length_map, hlength]
  · intro i queue hqueue file hmem
    rw [getElem?_map] at hqueue
    obtain ⟨queue', hqueue', rfl⟩ := Option.map_eq_some_iff.mp hqueue
    exact hplaced i queue' hqueue' file ((perm_insertionSort _ _).mem_iff.mp hmem)
  · exact (Queues.flatten_map_perm (fun queue => perm_insertionSort _ queue) queueList).trans
      hperm
  · intro queue hmem
    obtain ⟨queue', -, rfl⟩ := mem_map.mp hmem
    exact pairwise_restoreProcessQueueSort queue'

/-! ## A job -/

/-- The parameters of a file can be made when there is a base target. -/
theorem restoreJobFile_ok (hbase : ∃ target, manifestTargetBase config.manifest = .ok target)
    (file : ManifestFile) : ∃ jobFile, restoreJobFile config file = .ok jobFile ∧ jobFile.Put := by
  obtain ⟨target, htarget⟩ := hbase
  have hpath : ∃ pgPath, restoreFilePgPath config.manifest file.name = .ok pgPath := by
    unfold restoreFilePgPath
    rw [htarget]
    exact ⟨_, rfl⟩
  obtain ⟨pgPath, hpath⟩ := hpath
  unfold restoreJobFile
  rw [hpath]
  refine ⟨_, rfl, ⟨_, rfl⟩, ?_, ?_⟩
  · dsimp only
    split_ifs <;> simp
  · dsimp only
    intro hzero
    rw [if_neg (not_not.mpr hzero), if_neg (not_not.mpr hzero)]
    exact ⟨rfl, rfl⟩

def RestoreJobFiles (config : RestoreJobConfig) (files : List ManifestFile)
    (jobFiles : List (RestoreFile ByteStr Buffer)) : Prop :=
  List.Forall₂ (fun file jobFile => restoreJobFile config file = .ok jobFile ∧ jobFile.Put)
    files jobFiles

/-- **The loop takes the files of the bundle** at the head of the queue. -/
theorem restoreJobQueueLoop_bundle
    (hbase : ∃ target, manifestTargetBase config.manifest = .ok target) (queue : List ManifestFile)
    (state : RestoreJobState) (hadded : state.fileAdded = true) (hparam : state.param.isSome)
    (hbundle : state.bundleId ≠ 0) :
    ∃ taken left jobFiles, queue = taken ++ left ∧
      (∀ file ∈ taken, file.bundleId = state.bundleId ∧ file.reference = state.reference) ∧
      RestoreJobFiles config taken jobFiles ∧
      restoreJobQueueLoop config state queue =
        .ok ({ state with fileList := state.fileList ++ jobFiles }, left) := by
  induction queue generalizing state with
  | nil =>
    refine ⟨[], [], [], rfl, fun _ h => absurd h not_mem_nil, .nil, ?_⟩
    rw [append_nil]
    rfl
  | cons file queue ih =>
    unfold restoreJobQueueLoop
    by_cases hsame : file.bundleId = state.bundleId ∧ file.reference = state.reference
    · obtain ⟨jobFile, hfile, hput⟩ := restoreJobFile_ok hbase file
      have hbegin : restoreJobBegin config state file = state := by
        obtain ⟨param, hparam⟩ := Option.isSome_iff_exists.mp hparam
        unfold restoreJobBegin
        rw [hparam]
      obtain ⟨taken, left, jobFiles, hqueue, htaken, hjobFiles, hloop⟩ :=
        ih { state with fileList := state.fileList ++ [jobFile] } hadded hparam hbundle
      refine ⟨file :: taken, left, jobFile :: jobFiles, ?_, ?_, .cons ⟨hfile, hput⟩ hjobFiles, ?_⟩
      · rw [hqueue, cons_append]
      · exact forall_mem_cons.mpr ⟨hsame, htaken⟩
      · rw [if_neg (by simp [hsame.1, hsame.2]), hbegin, hfile, ok_bind]
        rw [if_neg hbundle, hloop]
        simp only [append_assoc, singleton_append]
    · refine ⟨[], file :: queue, [], rfl, fun _ h => absurd h not_mem_nil, .nil, ?_⟩
      rw [if_pos, append_nil]
      rw [hadded]
      simp only [Bool.true_and, Bool.or_eq_true, decide_eq_true_eq]
      by_contra hnot
      rw [not_or, not_not, not_not] at hnot
      exact hsame ⟨hnot.1.symm, hnot.2.symm⟩

/-- What a job takes from a queue. -/
structure RestoreJobTaken (config : RestoreJobConfig) (queue : List ManifestFile)
    (job : RestoreJob) (taken left : List ManifestFile) : Prop where
  queue : queue = taken ++ left
  nonempty : taken ≠ []
  files : RestoreJobFiles config taken job.fileList
  param : ∀ file ∈ taken, job.param = restoreJobParam config file
  key : ∀ file ∈ taken,
    job.key = if file.bundleId ≠ 0 then .bundle file.bundleId else .file file.name
  single : (∃ file ∈ taken, file.bundleId = 0) → taken.length = 1
  same : ∀ file1 ∈ taken, ∀ file2 ∈ taken, file1.bundleId = file2.bundleId ∧
    (file1.bundleId ≠ 0 → file1.reference = file2.reference)

theorem restoreJobParam_eq {file1 file2 : ManifestFile} (hbundle : file1.bundleId = file2.bundleId)
    (hbundled : file1.bundleId ≠ 0) (href : file1.reference = file2.reference) :
    restoreJobParam config file1 = restoreJobParam config file2 := by
  unfold restoreJobParam restoreRepoFile backupFileRepoPath
  rw [hbundle] at hbundled
  rw [hbundle, href, if_pos hbundled, if_pos hbundled]

/-- **Taking from a queue**: there is no file in it, or a job gets files from
its head. -/
theorem restoreJobTake_cases {data : RestoreJobData}
    (hbase : ∃ target, manifestTargetBase data.config.manifest = .ok target) {queueIdx : ℕ}
    (hqueue : data.queueList[queueIdx]? = some queue) :
    (restoreJobTake data queueIdx = none ∧ queue = []) ∨
    ∃ job taken left, RestoreJobTaken data.config queue job taken left ∧
      restoreJobTake data queueIdx =
        some (.ok (job, { data with queueList := data.queueList.set queueIdx left })) := by
  have hget : data.queueList.getD queueIdx [] = queue := by
    rw [getD_eq_getElem?_getD, hqueue]
    rfl
  unfold restoreJobTake
  rw [hget]
  cases queue with
  | nil => exact Or.inl ⟨rfl, rfl⟩
  | cons file queue =>
    right
    obtain ⟨jobFile, hfile, hput⟩ := restoreJobFile_ok hbase file
    unfold restoreJobQueueLoop
    rw [if_neg (by simp [restoreJobStateNew]), hfile, ok_bind]
    by_cases hbundle : file.bundleId = 0
    · -- a file that is not in a bundle is a job of its own
      have hzero : (restoreJobBegin data.config restoreJobStateNew file).bundleId = 0 := by
        simp [restoreJobBegin, restoreJobStateNew, hbundle]
      rw [if_pos hzero]
      have hfiles : RestoreJobFiles data.config [file] [jobFile] := .cons ⟨hfile, hput⟩ .nil
      refine ⟨⟨.file file.name, restoreJobParam data.config file, [jobFile]⟩, [file], queue,
        ⟨rfl, by simp, hfiles, ?_, ?_, fun _ => rfl, ?_⟩, ?_⟩
      · intro file' hmem
        rw [mem_singleton.mp hmem]
      · intro file' hmem
        rw [mem_singleton.mp hmem, if_neg (not_not.mpr hbundle)]
      · intro file1 hfile1 file2 hfile2
        rw [mem_singleton.mp hfile1, mem_singleton.mp hfile2]
        exact ⟨rfl, fun _ => rfl⟩
      · simp [restoreJobBegin, restoreJobStateNew, hbundle]
    · have hbegin : (restoreJobBegin data.config restoreJobStateNew file).bundleId = file.bundleId := by
        simp [restoreJobBegin, restoreJobStateNew, hbundle]
      have href : (restoreJobBegin data.config restoreJobStateNew file).reference = file.reference := by
        simp [restoreJobBegin, restoreJobStateNew, hbundle]
      rw [if_neg (by rw [hbegin]; exact hbundle)]
      obtain ⟨taken, left, jobFiles, hqueue', htaken, hjobFiles, hloop⟩ :=
        restoreJobQueueLoop_bundle hbase queue
          { restoreJobBegin data.config restoreJobStateNew file with
            fileList := (restoreJobBegin data.config restoreJobStateNew file).fileList ++ [jobFile] }
          rfl rfl (by show (restoreJobBegin _ _ _).bundleId ≠ 0; rw [hbegin]; exact hbundle)
      rw [hloop]
      rw [hbegin, href] at htaken
      have hall : ∀ file' ∈ file :: taken, file'.bundleId = file.bundleId ∧
          file'.reference = file.reference := forall_mem_cons.mpr ⟨⟨rfl, rfl⟩, htaken⟩
      have hfiles : RestoreJobFiles data.config (file :: taken) (jobFile :: jobFiles) :=
        .cons ⟨hfile, hput⟩ hjobFiles
      refine ⟨⟨.bundle file.bundleId, restoreJobParam data.config file, jobFile :: jobFiles⟩,
        file :: taken, left, ⟨?_, by simp, hfiles, ?_, ?_, ?_, ?_⟩, ?_⟩
      · rw [hqueue', cons_append]
      · intro file' hmem
        obtain ⟨hid, href'⟩ := hall file' hmem
        exact restoreJobParam_eq hid.symm hbundle href'.symm
      · intro file' hmem
        rw [(hall file' hmem).1, if_pos hbundle]
      · rintro ⟨file', hmem, hzero⟩
        exact absurd ((hall file' hmem).1.symm.trans hzero) hbundle
      · intro file1 hfile1 file2 hfile2
        obtain ⟨hid1, href1⟩ := hall file1 hfile1
        obtain ⟨hid2, href2⟩ := hall file2 hfile2
        exact ⟨hid1.trans hid2.symm, fun _ => href1.trans href2.symm⟩
      · simp [restoreJobBegin, restoreJobStateNew, hbundle]

/-! ## The whole run -/

/-- **The bundle layout**: the files with a size that are in one bundle of one
backup have different offsets. -/
def RestoreBundleLayout (manifest : Manifest) : Prop :=
  ∀ file1 ∈ manifest.fileList, ∀ file2 ∈ manifest.fileList, file1 ≠ file2 →
    file1.size ≠ 0 → file2.size ≠ 0 → file1.bundleId ≠ 0 → file1.bundleId = file2.bundleId →
    file1.reference = file2.reference → file1.bundleOffset ≠ file2.bundleOffset

/-- Files of a bundle that have a size are in the order of their offsets. -/
def RestoreOffsets (files : List ManifestFile) : Prop :=
  files.Pairwise (fun file1 file2 => file1.size ≠ 0 → file2.size ≠ 0 → file1.bundleId ≠ 0 →
    file1.bundleId = file2.bundleId → file1.reference = file2.reference →
    file1.bundleOffset < file2.bundleOffset)

/-- **A sorted queue has the order of the offsets.** -/
theorem restoreOffsets_of_keys (hlayout : RestoreBundleLayout manifest)
    (hsubset : ∀ file ∈ queue, file ∈ manifest.fileList) (hnodup : queue.Nodup)
    (hkeys : queue.Pairwise (fun file1 file2 => restoreQueueKey file1 ≤ restoreQueueKey file2)) :
    RestoreOffsets queue := by
  refine (hkeys.and hnodup).imp_of_mem (fun {file1 file2} hmem1 hmem2 h => ?_)
  intro hsize1 hsize2 hbundled hbundle href
  have hne := hlayout file1 (hsubset _ hmem1) file2 (hsubset _ hmem2) h.2 hsize1 hsize2 hbundled
    hbundle href
  have hle := h.1
  unfold restoreQueueKey at hle
  rw [hbundle] at hbundled hle
  rw [if_neg hsize1, if_neg hsize2, if_neg hbundled, if_neg hbundled, href] at hle
  simp only [Prod.Lex.toLex_le_toLex, lt_irrefl, true_and, false_or] at hle
  exact lt_of_le_of_ne hle hne

/-- The state of the callback and the calls so far, with what they returned. -/
structure RestoreJobRun where
  data : RestoreJobData
  calls : List (ℕ × Option RestoreJob)

/-- A client calls the callback. There is no next state when the call throws an
error or does not end after it has seen every queue once. -/
def restoreJobStep (s : RestoreJobRun) (clientIdx : ℕ) : Option RestoreJobRun :=
  match restoreJobCallback s.data.queueList.length s.data clientIdx with
  | some (.ok (job, data)) => some ⟨data, s.calls ++ [(clientIdx, job)]⟩
  | _ => none

def RestoreJobRun.jobList (s : RestoreJobRun) : List RestoreJob := s.calls.filterMap Prod.snd

/-- **What the scheduler promises for a job** and the files of the manifest that
are in it. -/
structure RestoreJobOk (config : RestoreJobConfig) (job : RestoreJob) (files : List ManifestFile) :
    Prop where
  nonempty : files ≠ []
  /-- The job has the parameters of the files. -/
  fileList : List.Forall₂ (fun file jobFile => restoreJobFile config file = .ok jobFile)
    files job.fileList
  /-- Every file is restored from its own repository file. -/
  repoFile : ∀ file ∈ files, job.param.repoFile = some (byteStr (backupFileRepoPath
    (file.reference.getD config.manifest.data.backupLabel) file.name file.bundleId
    config.manifest.data.backupOptionCompressType (file.blockIncrMapSize ≠ 0)))
  key : ∀ file ∈ files,
    job.key = if file.bundleId ≠ 0 then .bundle file.bundleId else .file file.name
  /-- The files of a bundle that have a size are in the order of their offsets. -/
  offsets : (files.filter (fun file => file.size ≠ 0)).Pairwise
    (fun file1 file2 => file1.bundleOffset < file2.bundleOffset)
  /-- The process that gets the job reads what was put into it. -/
  protocol : ∃ w, pckWriteCalls (pckWriteNew none) (restoreJobWrite job.param job.fileList) = .ok w ∧
    restoreFileProtocol (pckReadNew none (pckWriteResult w)) =
      .ok (job.param.bytes, job.fileList.map RestoreFile.bytes)

theorem RestoreJobTaken.jobOk {taken left : List ManifestFile} {job : RestoreJob}
    (h : RestoreJobTaken config queue job taken left) (hoffsets : RestoreOffsets queue)
    (hroom : queue.length < 2 ^ 28) : RestoreJobOk config job taken := by
  have hfiles : ∀ jobFile ∈ job.fileList, jobFile.Put := by
    intro jobFile hmem
    obtain ⟨i, hi, rfl⟩ := getElem_of_mem hmem
    exact (h.files.get (by rw [h.files.length_eq]; exact hi) hi).2
  have hlength : job.fileList.length < 2 ^ 28 := by
    have heq := congrArg length h.queue
    rw [length_append] at heq
    have hjob := h.files.length_eq
    omega
  refine ⟨h.nonempty, h.files.imp (fun _ _ hfile => hfile.1), ?_, h.key, ?_,
    restoreFileProtocol_ok job.param job.fileList hfiles hlength⟩
  · intro file hmem
    rw [h.param file hmem]
    rfl
  · by_cases hbundle : ∃ file ∈ taken, file.bundleId = 0
    · obtain ⟨file, hfile⟩ := length_eq_one_iff.mp (h.single hbundle)
      rw [hfile]
      by_cases hsize : file.size = 0
      · simp [hsize]
      · simp [hsize]
    · have htaken : RestoreOffsets taken := by
        rw [h.queue] at hoffsets
        exact (pairwise_append.mp hoffsets).1
      refine (htaken.imp_of_mem (S := fun file1 file2 => file1.size ≠ 0 → file2.size ≠ 0 →
        file1.bundleOffset < file2.bundleOffset) ?_).filter _ |>.imp_of_mem ?_
      · intro file1 file2 hmem1 hmem2 hlt hsize1 hsize2
        obtain ⟨hid, href⟩ := h.same file1 hmem1 file2 hmem2
        have hbundled : file1.bundleId ≠ 0 := fun hzero => hbundle ⟨file1, hmem1, hzero⟩
        exact hlt hsize1 hsize2 hbundled hid (href hbundled)
      · intro file1 file2 hmem1 hmem2 hlt
        exact hlt (of_decide_eq_true (mem_filter.mp hmem1).2)
          (of_decide_eq_true (mem_filter.mp hmem2).2)

structure RestoreJobInv (config : RestoreJobConfig) (s : RestoreJobRun) : Prop where
  same : s.data.config = config
  total : 0 < s.data.queueList.length
  offsets : ∀ queue ∈ s.data.queueList, RestoreOffsets queue
  /-- The files of the jobs and those that are left. -/
  jobs : ∃ taken : List (List ManifestFile),
    List.Forall₂ (RestoreJobOk config) s.jobList taken ∧
      (taken.flatten ++ s.data.queueList.flatten).Perm config.manifest.fileList
  /-- There is no file left when a client got `NULL`. -/
  ended : (∃ clientIdx, (clientIdx, none) ∈ s.calls) → s.data.queueList.flatten = []

/-- **The scan of the queues**: a job from one of them, or all are empty. -/
theorem restoreJobCallback_cases {data : RestoreJobData}
    (hbase : ∃ target, manifestTargetBase data.config.manifest = .ok target)
    (htotal : 0 < data.queueList.length) (clientIdx : ℕ) :
    (∃ (queueIdx : ℕ) (queue : List ManifestFile) (job : RestoreJob) (taken left : List ManifestFile),
      data.queueList[queueIdx]? = some queue ∧ RestoreJobTaken data.config queue job taken left ∧
      restoreJobCallback data.queueList.length data clientIdx =
        some (.ok (some job, { data with queueList := data.queueList.set queueIdx left }))) ∨
    (data.queueList.flatten = [] ∧
      restoreJobCallback data.queueList.length data clientIdx = some (.ok (none, data))) := by
  have hlt := Nat.mod_lt clientIdx htotal
  unfold restoreJobCallback restoreJobQueueNext
  dsimp only
  rcases Queues.scan_next (clientIdx % 2 ≠ 0) (fun queueIdx => restoreJobTake data queueIdx.toNat)
    (Int.natCast_nonneg (clientIdx % data.queueList.length)) (Int.ofNat_lt.mpr hlt) le_rfl with
    ⟨item, position, hscan, hnonneg, hposition, htake⟩ | ⟨hscan, hnone⟩
  · left
    have hidx : position.toNat < data.queueList.length := by omega
    rcases restoreJobTake_cases hbase (getElem?_eq_getElem hidx) with
      ⟨htake', -⟩ | ⟨job, taken, left, htaken, htake'⟩
    · rw [htake'] at htake
      cases htake
    · rw [htake'] at htake
      refine ⟨position.toNat, _, job, taken, left, getElem?_eq_getElem hidx, htaken, ?_⟩
      rw [hscan, ← Option.some.inj htake]
  · right
    refine ⟨?_, by rw [hscan]⟩
    rw [flatten_eq_nil_iff]
    intro queue hmem
    obtain ⟨queueIdx, hqueue⟩ := getElem?_of_mem hmem
    have hidx := (List.getElem?_eq_some_iff.mp hqueue).1
    rcases restoreJobTake_cases hbase hqueue with ⟨-, hempty⟩ | ⟨job, taken, left, -, htake⟩
    · exact hempty
    · have hnot := hnone queueIdx (Int.natCast_nonneg _) (Int.ofNat_lt.mpr hidx)
      rw [Int.toNat_natCast, htake] at hnot
      cases hnot

/-- A call that returns `NULL` keeps the invariant. -/
theorem RestoreJobInv.null {s : RestoreJobRun} (hs : RestoreJobInv config s) (clientIdx : ℕ)
    (hempty : s.data.queueList.flatten = []) :
    RestoreJobInv config ⟨s.data, s.calls ++ [(clientIdx, none)]⟩ := by
  have hjobs : (⟨s.data, s.calls ++ [(clientIdx, none)]⟩ : RestoreJobRun).jobList = s.jobList := by
    simp [RestoreJobRun.jobList]
  refine ⟨hs.same, hs.total, hs.offsets, ?_, fun _ => hempty⟩
  rw [hjobs]
  exact hs.jobs

/-- **A call that returns a job keeps the invariant.** -/
theorem RestoreJobInv.job {s : RestoreJobRun} (hs : RestoreJobInv config s)
    (hroom : config.manifest.fileList.length < 2 ^ 28) (clientIdx : ℕ) {queueIdx : ℕ}
    {taken left : List ManifestFile} {job : RestoreJob}
    (hqueue : s.data.queueList[queueIdx]? = some queue)
    (htaken : RestoreJobTaken config queue job taken left) :
    RestoreJobInv config ⟨{ s.data with queueList := s.data.queueList.set queueIdx left },
      s.calls ++ [(clientIdx, some job)]⟩ := by
  have hmem := mem_of_getElem? hqueue
  have hoffsets := hs.offsets queue hmem
  obtain ⟨takenList, hforall, hperm⟩ := hs.jobs
  have hset : s.data.queueList.flatten.Perm
      (taken ++ (s.data.queueList.set queueIdx left).flatten) :=
    Queues.flatten_set_perm hqueue (by rw [htaken.queue])
  have hlength : queue.length < 2 ^ 28 := by
    have hsublist := (sublist_flatten_of_mem hmem).length_le
    have heq := hperm.length_eq
    rw [length_append] at heq
    omega
  have hjobs : (⟨{ s.data with queueList := s.data.queueList.set queueIdx left },
      s.calls ++ [(clientIdx, some job)]⟩ : RestoreJobRun).jobList = s.jobList ++ [job] := by
    simp [RestoreJobRun.jobList]
  refine ⟨hs.same, ?_, ?_, ⟨takenList ++ [taken], ?_, ?_⟩, ?_⟩
  · show 0 < (s.data.queueList.set queueIdx left).length
    rw [length_set]
    exact hs.total
  · intro queue' hmem'
    rcases mem_or_eq_of_mem_set hmem' with hmem' | rfl
    · exact hs.offsets queue' hmem'
    · unfold RestoreOffsets at hoffsets ⊢
      rw [htaken.queue] at hoffsets
      exact (pairwise_append.mp hoffsets).2.1
  · rw [hjobs]
    exact rel_append hforall (.cons (htaken.jobOk hoffsets hlength) .nil)
  · rw [flatten_append, flatten_singleton, append_assoc]
    exact (hset.symm.append_left _).trans hperm
  · rintro ⟨clientIdx', hmem'⟩
    have hnil := hs.ended ⟨clientIdx', by simpa using hmem'⟩
    rw [hnil] at hset
    exact (append_eq_nil_iff.mp hset.symm.eq_nil).2

/-- **One call**: it ends without an error and keeps the invariant. -/
theorem RestoreJobInv.step {s : RestoreJobRun} (hs : RestoreJobInv config s)
    (hbase : ∃ target, manifestTargetBase config.manifest = .ok target)
    (hroom : config.manifest.fileList.length < 2 ^ 28) (clientIdx : ℕ) :
    ∃ s', restoreJobStep s clientIdx = some s' ∧ RestoreJobInv config s' := by
  have hsame := hs.same
  subst hsame
  unfold restoreJobStep
  rcases restoreJobCallback_cases hbase hs.total clientIdx with
    ⟨queueIdx, queue, job, taken, left, hqueue, htaken, hcallback⟩ | ⟨hempty, hcallback⟩
  · rw [hcallback]
    exact ⟨_, rfl, hs.job hroom clientIdx hqueue htaken⟩
  · rw [hcallback]
    exact ⟨_, rfl, hs.null clientIdx hempty⟩

/-- **What the scheduler promises.** The queues can be made and the comparator is
a strict total order on each of them. Whatever the order in which the clients
call, every call ends without an error, and when a client got `NULL` the files
of the jobs are the files of the manifest. -/
def RestoreJobsOk (config : RestoreJobConfig) : Prop :=
  ∃ size queueList, restoreProcessQueue config.manifest = .ok (size, queueList) ∧
    (∀ queue ∈ queueList, RestoreQueueStrict queue) ∧
    ∀ clients : List ℕ, ∃ t,
      Steps.run restoreJobStep ⟨⟨config, queueList⟩, []⟩ clients = some t ∧
      ∃ taken : List (List ManifestFile), List.Forall₂ (RestoreJobOk config) t.jobList taken ∧
        ((∃ clientIdx, (clientIdx, none) ∈ t.calls) →
          taken.flatten.Perm config.manifest.fileList)

/-- No two zero length files of a target share a bundle, the reference and the
offset. -/
def RestoreZeroDistinct (manifest : Manifest) : Prop :=
  ∀ file1 ∈ manifest.fileList, ∀ file2 ∈ manifest.fileList, file1 ≠ file2 →
    file1.size = 0 → file2.size = 0 → file1.bundleId ≠ 0 → file1.bundleId = file2.bundleId →
    file1.reference = file2.reference →
    manifest.targetPathList.findIdx? (strBeginsWith file1.name) =
      manifest.targetPathList.findIdx? (strBeginsWith file2.name) →
    file1.bundleOffset ≠ file2.bundleOffset

section Scheduler

variable (hnames : (config.manifest.fileList.map ManifestFile.name).Nodup)
  (hlayout : RestoreBundleLayout config.manifest)
  (htargets : ∀ file ∈ config.manifest.fileList, ∃ targetPath ∈ config.manifest.targetPathList,
    strBeginsWith file.name targetPath = true)

include htargets in
/-- A zero length file with the place of another one has its key. -/
theorem restoreZeroDistinct_of_jobsOk (h : RestoreJobsOk config) :
    RestoreZeroDistinct config.manifest := by
  intro file1 hmem1 file2 hmem2 hne hsize1 hsize2 hbundled hbundle href htarget hoffset
  obtain ⟨size, queueList, hqueue, hstrict, -⟩ := h
  obtain ⟨size', queueList', hqueue', -, hplaced, hperm, -⟩ := restoreProcessQueue_ok htargets
  cases hqueue.symm.trans hqueue'
  -- both files are in the queue of their target
  obtain ⟨queue1, hqueue1, hfile1⟩ := mem_flatten.mp (hperm.mem_iff.mpr hmem1)
  obtain ⟨queue2, hqueue2, hfile2⟩ := mem_flatten.mp (hperm.mem_iff.mpr hmem2)
  obtain ⟨i1, hi1⟩ := getElem?_of_mem hqueue1
  obtain ⟨i2, hi2⟩ := getElem?_of_mem hqueue2
  rw [hplaced i1 queue1 hi1 file1 hfile1, hplaced i2 queue2 hi2 file2 hfile2] at htarget
  cases htarget
  cases hi1.symm.trans hi2
  have hkey := (restoreProcessQueueCompare_key _ _).2.mp
    ((hstrict queue1 hqueue1).assert file1 hfile1 file2 hfile2 hne)
  refine hkey (restoreQueueKey_eq_iff.mpr ⟨?_, hbundle, fun h => absurd h hbundled, fun _ => ?_⟩)
  · rw [hsize1, hsize2]
  · exact ⟨href, hoffset⟩

include hnames hlayout htargets in
/-- **Every file is handed out exactly once** and from its own place, when zero
length files have different places. -/
theorem restoreJobsOk_of_zeroDistinct
    (hbase : ∃ target ∈ config.manifest.targetList, target.name = "pg_data".toList)
    (hroom : config.manifest.fileList.length < 2 ^ 28)
    (h : RestoreZeroDistinct config.manifest) : RestoreJobsOk config := by
  have hbase : ∃ target, manifestTargetBase config.manifest = .ok target := by
    obtain ⟨target, hmem, hname⟩ := hbase
    unfold manifestTargetBase
    cases hfind : config.manifest.targetList.find? (fun target => target.name = "pg_data".toList) with
    | none => exact absurd (decide_eq_true hname) (find?_eq_none.mp hfind target hmem)
    | some target' => exact ⟨target', rfl⟩
  obtain ⟨size, queueList, hqueue, hlength, hplaced, hperm, hkeys⟩ := restoreProcessQueue_ok htargets
  have hsubset : ∀ queue ∈ queueList, ∀ file ∈ queue, file ∈ config.manifest.fileList :=
    fun queue hmem file hfile => hperm.mem_iff.mp (mem_flatten.mpr ⟨queue, hmem, hfile⟩)
  have hnodup : config.manifest.fileList.Nodup := hnames.of_map
  refine ⟨size, queueList, hqueue, fun queue hmem => ?_, fun clients => ?_⟩
  · -- files with one key have one name, or are zero length files with one place
    refine restoreQueueStrict_of_keys (fun file1 hfile1 file2 hfile2 hne hkey => ?_)
    have hmem1 := hsubset queue hmem file1 hfile1
    have hmem2 := hsubset queue hmem file2 hfile2
    obtain ⟨hzero, hbundle, hunbundled, hbundled⟩ := restoreQueueKey_eq_iff.mp hkey
    by_cases hid : file1.bundleId = 0
    · exact hne (inj_on_of_nodup_map hnames hmem1 hmem2 (hunbundled hid).2)
    · obtain ⟨href, hoffset⟩ := hbundled hid
      by_cases hsize : file1.size = 0
      · obtain ⟨i, hi⟩ := getElem?_of_mem hmem
        have htarget := (hplaced i queue hi file1 hfile1).trans (hplaced i queue hi file2 hfile2).symm
        exact h file1 hmem1 file2 hmem2 hne hsize (hzero.mp hsize) hid hbundle href htarget hoffset
      · exact hlayout file1 hmem1 file2 hmem2 hne hsize (fun h => hsize (hzero.mpr h)) hid hbundle
          href hoffset
  · have hinv : RestoreJobInv config ⟨⟨config, queueList⟩, []⟩ := by
      refine ⟨rfl, ?_, fun queue hmem => ?_, ⟨[], .nil, hperm⟩, nofun⟩
      · show 0 < queueList.length
        rw [hlength]
        exact Nat.succ_pos _
      · have hsublist := sublist_flatten_of_mem hmem
        exact restoreOffsets_of_keys hlayout (hsubset queue hmem)
          (hsublist.nodup (hperm.nodup_iff.mpr hnodup)) (hkeys queue hmem)
    obtain ⟨t, hrun, ht⟩ := Steps.run_of_progress (P := fun _ s => RestoreJobInv config s) clients
      (fun _ clientIdx _ s _ hs => hs.step hbase hroom clientIdx) hinv
    obtain ⟨taken, hforall, htaken⟩ := ht.jobs
    refine ⟨t, hrun, taken, hforall, fun hended => ?_⟩
    rwa [ht.ended hended, append_nil] at htaken

/-- **When the restore scheduler keeps its promise.** For a manifest with
different names whose files are in the targets and whose bundles have their
layout, this is when no two zero length files share their place. -/
theorem restoreJobCallback_exactlyOnce (config : RestoreJobConfig)
    (hnames : (config.manifest.fileList.map ManifestFile.name).Nodup)
    (hlayout : RestoreBundleLayout config.manifest)
    (htargets : ∀ file ∈ config.manifest.fileList, ∃ targetPath ∈ config.manifest.targetPathList,
      strBeginsWith file.name targetPath = true)
    (hbase : ∃ target ∈ config.manifest.targetList, target.name = "pg_data".toList)
    (hroom : config.manifest.fileList.length < 2 ^ 28) :
    RestoreJobsOk config ↔ RestoreZeroDistinct config.manifest :=
  ⟨restoreZeroDistinct_of_jobsOk htargets,
    restoreJobsOk_of_zeroDistinct hnames hlayout htargets hbase hroom⟩

end Scheduler

/-- A restore of some files: there is the base target and a tablespace. -/
def restoreJobConfigSample (fileList : List ManifestFile) : RestoreJobConfig where
  repoIdx := 0
  manifest :=
    { Manifest.plain "20200102-000000F".toList .full none ["20200102-000000F".toList] with
      targetList :=
        [⟨"pg_data".toList, .path, "/pg".toList, none, 0, none⟩,
          ⟨"pg_tblspc/1".toList, .link, "/ts".toList, none, 1, some "ts".toList⟩]
      fileList := fileList }
  zeroExp := none
  cipherSubPass := none
  rootReplaceUser := none
  rootReplaceGroup := none
  userRoot := false
  delta := false
  force := false

def restoreFileSample (name : Str) (size bundleId bundleOffset : ℕ) (reference : Option Str) :
    ManifestFile :=
  { backupFileSample name size with
    bundleId := bundleId
    bundleOffset := bundleOffset
    reference := reference }

/-- Files of a bundle of this backup and of a bundle of an earlier one, a file
that is not in a bundle and zero length files. -/
theorem restoreJobCallback_exactlyOnce_sample :
    RestoreJobsOk (restoreJobConfigSample
      [restoreFileSample "pg_data/a".toList 3 1 8 none,
        restoreFileSample "pg_data/b".toList 8 1 0 none,
        restoreFileSample "pg_data/c".toList 5 1 0 (some "20200101-000000F".toList),
        restoreFileSample "pg_data/d".toList 9 0 0 none,
        restoreFileSample "pg_data/e".toList 0 1 8 none,
        restoreFileSample "pg_data/f".toList 0 0 0 none,
        restoreFileSample "pg_tblspc/1/g".toList 0 1 8 none]) := by
  refine (restoreJobCallback_exactlyOnce _ ?_ ?_ ?_ ?_ ?_).mpr ?_
  · decide +kernel
  · unfold RestoreBundleLayout
    decide +kernel
  · decide +kernel
  · decide +kernel
  · decide +kernel
  · unfold RestoreZeroDistinct
    decide +kernel

/-- Two files that were truncated to zero length at one offset of a bundle. -/
theorem restoreJobCallback_not_strict :
    ∃ config : RestoreJobConfig,
      (config.manifest.fileList.map ManifestFile.name).Nodup ∧
      RestoreBundleLayout config.manifest ∧
      (∀ file ∈ config.manifest.fileList, ∃ targetPath ∈ config.manifest.targetPathList,
        strBeginsWith file.name targetPath = true) ∧
      (∃ target ∈ config.manifest.targetList, target.name = "pg_data".toList) ∧
      ¬ RestoreJobsOk config := by
  have htargets : ∀ file ∈ [restoreFileSample "pg_data/a".toList 0 1 0 none,
      restoreFileSample "pg_data/b".toList 0 1 0 none],
      ∃ targetPath ∈ (restoreJobConfigSample
        [restoreFileSample "pg_data/a".toList 0 1 0 none,
          restoreFileSample "pg_data/b".toList 0 1 0 none]).manifest.targetPathList,
        strBeginsWith file.name targetPath = true := by
    decide +kernel
  refine ⟨restoreJobConfigSample [restoreFileSample "pg_data/a".toList 0 1 0 none,
    restoreFileSample "pg_data/b".toList 0 1 0 none], by decide +kernel, ?_, htargets, by decide +kernel, fun h => ?_⟩
  · unfold RestoreBundleLayout
    decide +kernel
  · refine absurd (restoreZeroDistinct_of_jobsOk htargets h) ?_
    unfold RestoreZeroDistinct
    decide +kernel

end PgxBackup
