import Mathlib.Data.Prod.Lex
import PgxBackup.BackupJob
import PgxBackup.Steps

/-!
# Every file of a backup is in exactly one job

The comparator puts the files that are too large for a bundle first, in every
queue. Hence a bundle that was begun with a small file only meets small files,
and a large file is always the first one of its job.
-/

namespace PgxBackup

open List

/-! ### The order of a queue -/

/-- Is the size of the file compared? In a queue with bundles only large files
are ordered by size. -/
def backupQueueLarge (bundle : Bool) (bundleLimit : ℕ) (file : ManifestFile) : Bool :=
  !bundle || file.size > bundleLimit

/-- What the comparator compares: the size, largest first, the time when there
are bundles, and the name, last first. -/
def backupQueueKey (bundle : Bool) (bundleLimit : ℕ) (file : ManifestFile) : ℤ ×ₗ ℤ ×ₗ Strᵒᵈ :=
  toLex (if backupQueueLarge bundle bundleLimit file then -(file.size : ℤ) else 0,
    toLex (if bundle then file.timestamp else 0, OrderDual.toDual file.name))

/-- **The comparator is the order of the keys.** -/
theorem backupProcessQueueComparator_le_zero {bundle : Bool} {bundleLimit : ℕ}
    {file1 file2 : ManifestFile} :
    backupProcessQueueComparator bundle bundleLimit file1 file2 ≤ 0 ↔
      backupQueueKey bundle bundleLimit file1 ≤ backupQueueKey bundle bundleLimit file2 := by
  unfold backupQueueKey backupProcessQueueComparator backupQueueLarge
  rw [Prod.Lex.toLex_le_toLex, Prod.Lex.toLex_le_toLex, OrderDual.toDual_le_toDual]
  cases bundle with
  | false =>
    simp only [Bool.not_false, Bool.true_or, Bool.true_and, Bool.false_and, decide_eq_true_eq,
      if_true, Bool.false_eq_true, if_false, lt_irrefl, true_and, false_or]
    split
    next h => exact ⟨fun h' => absurd h' (by decide), fun h' => by omega⟩
    next h =>
      split
      next h' => exact ⟨fun _ => Or.inl (by omega), fun _ => by decide⟩
      next h' =>
        rw [strCmp_le_zero]
        refine ⟨fun hle => Or.inr ⟨by omega, hle⟩, ?_⟩
        rintro (hlt | ⟨-, hle⟩)
        · omega
        · exact hle
  | true =>
    simp only [Bool.not_true, Bool.false_or, Bool.true_and, if_true, Bool.and_eq_true,
      Bool.or_eq_true, decide_eq_true_eq]
    have hname := strCmp_le_zero (a := file2.name) (b := file1.name)
    by_cases h1 : file1.size > bundleLimit <;> by_cases h2 : file2.size > bundleLimit <;>
      simp only [h1, h2, if_true, if_false, or_true, true_or, or_self, true_and, false_and] <;>
      grind

variable {config : BackupJobConfig}

instance : Std.Total (fun file1 file2 : ManifestFile =>
    backupProcessQueueComparator config.bundle config.bundleLimit file1 file2 ≤ 0) where
  total file1 file2 := by
    rw [backupProcessQueueComparator_le_zero, backupProcessQueueComparator_le_zero]
    exact le_total _ _

instance : IsTrans ManifestFile (fun file1 file2 =>
    backupProcessQueueComparator config.bundle config.bundleLimit file1 file2 ≤ 0) where
  trans file1 file2 file3 := by
    rw [backupProcessQueueComparator_le_zero, backupProcessQueueComparator_le_zero,
      backupProcessQueueComparator_le_zero]
    exact le_trans

/-- In a queue for bundles, no small file is before a large one. -/
def BackupQueueOrdered (config : BackupJobConfig) (queue : List ManifestFile) : Prop :=
  queue.Pairwise (fun file1 file2 => config.bundle = true → file2.size > config.bundleLimit →
    file1.size > config.bundleLimit)

/-- **A sorted queue has the large files first.** -/
theorem backupQueueOrdered_sort (queue : List ManifestFile) :
    BackupQueueOrdered config (backupProcessQueueSort config queue) := by
  refine (pairwise_insertionSort _ queue).imp (fun {file1 file2} hle hbundle hlarge => ?_)
  rw [backupProcessQueueComparator_le_zero] at hle
  unfold backupQueueKey backupQueueLarge at hle
  rw [Prod.Lex.toLex_le_toLex, hbundle] at hle
  simp only [Bool.not_true, Bool.false_or, decide_eq_true_eq, hlarge, if_true] at hle
  by_contra hsmall
  rw [if_neg hsmall] at hle
  omega

/-! ### The queues -/

/-- In a backup from standby, queue 0 has the files that must come from the
primary, and only these. -/
def BackupQueuesPlaced (config : BackupJobConfig) (queueList : List (List ManifestFile)) : Prop :=
  config.backupStandby = true → ∀ (queueIdx : ℕ) queue, queueList[queueIdx]? = some queue →
    ∀ file ∈ queue, (backupProcessFilePrimary config.pgXactPath file.name = true ↔ queueIdx = 0)

variable {file : ManifestFile} {queueIdx : ℕ} {queue : List ManifestFile}

/-- The queue of a file is one of the queues, and the first one only for a file
from the primary. -/
theorem backupProcessQueueIdx_ok
    (h : backupProcessQueueIdx config file = .ok queueIdx) :
    queueIdx < config.manifest.targetPathList.length + backupQueueOffset config ∧
      (config.backupStandby = true →
        (backupProcessFilePrimary config.pgXactPath file.name = true ↔ queueIdx = 0)) := by
  unfold backupProcessQueueIdx at h
  split at h
  next hprimary =>
    rw [Bool.and_eq_true] at hprimary
    cases h
    refine ⟨?_, fun _ => ⟨fun _ => rfl, fun _ => hprimary.2⟩⟩
    exact Nat.lt_of_lt_of_le (Nat.succ_pos _) (Nat.le_add_right _ _)
  next hprimary =>
    split at h
    next targetIdx hfind =>
      cases h
      have hlt := (findIdx?_eq_some_iff_getElem.mp hfind).1
      refine ⟨Nat.add_lt_add_right hlt _, fun hstandby => ⟨fun hp => ?_, fun hzero => ?_⟩⟩
      · exact absurd (by rw [hstandby, hp]; rfl) hprimary
      · unfold backupQueueOffset at hzero
        rw [if_pos hstandby] at hzero
        cases hzero
    next => cases h

theorem backupProcessQueueAdd_foldlM (fileList : List ManifestFile) :
    ∀ {queueList queueList' : List (List ManifestFile)},
    queueList.length = config.manifest.targetPathList.length + backupQueueOffset config →
    BackupQueuesPlaced config queueList →
    fileList.foldlM (backupProcessQueueAdd config) queueList = .ok queueList' →
    queueList'.length = config.manifest.targetPathList.length + backupQueueOffset config ∧
      BackupQueuesPlaced config queueList' ∧
      queueList'.flatten.Perm (fileList ++ queueList.flatten) := by
  induction fileList with
  | nil =>
    intro queueList queueList' hlength hplaced h
    cases h
    exact ⟨hlength, hplaced, List.Perm.refl _⟩
  | cons file fileList ih =>
    intro queueList queueList' hlength hplaced h
    rw [foldlM_cons] at h
    cases hidx : backupProcessQueueIdx config file with
    | error error =>
      simp only [backupProcessQueueAdd, hidx] at h
      cases h
    | ok queueIdx =>
      obtain ⟨hlt, hprimary⟩ := backupProcessQueueIdx_ok hidx
      simp only [backupProcessQueueAdd, hidx] at h
      have hmodify : (queueList.modify queueIdx (fun queue => queue ++ [file])).length =
          config.manifest.targetPathList.length + backupQueueOffset config := by
        rw [length_modify, hlength]
      refine (ih hmodify ?_ h).imp id (And.imp id (fun hperm => hperm.trans ?_))
      · intro hstandby i queue hqueue file' hmem
        rw [getElem?_modify] at hqueue
        obtain ⟨queue', hqueue', heq⟩ := Option.map_eq_some_iff.mp hqueue
        by_cases hi : queueIdx = i
        · subst hi
          rw [if_pos rfl] at heq
          subst heq
          rcases mem_append.mp hmem with hmem | hmem
          · exact hplaced hstandby queueIdx queue' hqueue' file' hmem
          · obtain rfl : file' = file := by simpa using hmem
            exact hprimary hstandby
        · rw [if_neg hi] at heq
          subst heq
          exact hplaced hstandby i _ hqueue' file' hmem
      · refine ((Queues.flatten_modify_perm (by rw [hlength]; exact hlt) file).append_left _).trans ?_
        exact perm_middle

/-- **The queues hold the files that have to be copied.** -/
theorem backupProcessQueue_ok {data : BackupJobData} (h : backupProcessQueue config = .ok data) :
    data.config = config ∧ data.bundleId = 1 ∧
      data.queueList.length = config.manifest.targetPathList.length + backupQueueOffset config ∧
      (∀ queue ∈ data.queueList, BackupQueueOrdered config queue) ∧
      BackupQueuesPlaced config data.queueList ∧
      data.queueList.flatten.Perm (backupCopyList config.manifest) := by
  unfold backupProcessQueue at h
  obtain ⟨queueList, hfold, h⟩ := ok_of_bind h
  have hempty : BackupQueuesPlaced config
      (replicate (config.manifest.targetPathList.length + backupQueueOffset config) []) := by
    intro _ i queue hqueue file hmem
    rw [eq_of_mem_replicate (mem_of_getElem? hqueue)] at hmem
    cases hmem
  obtain ⟨hlength, hplaced, hperm⟩ := backupProcessQueueAdd_foldlM _ length_replicate hempty hfold
  simp only [flatten_replicate_nil, append_nil] at hperm
  have hdata : data = ⟨config, 1, queueList.map (backupProcessQueueSort config)⟩ := by
    change (if _ then _ else if _ then _ else _) = Except.ok data at h
    split at h
    · cases h
    · split at h
      · cases h
      · exact (Except.ok.inj h).symm
  have hsort : ∀ queue, (backupProcessQueueSort config queue).Perm queue :=
    fun queue => perm_insertionSort _ queue
  subst hdata
  refine ⟨rfl, rfl, by rw [length_map, hlength], ?_, ?_,
    (Queues.flatten_map_perm hsort queueList).trans hperm⟩
  · intro queue hmem
    obtain ⟨queue', -, rfl⟩ := mem_map.mp hmem
    exact backupQueueOrdered_sort queue'
  · intro hstandby queueIdx queue hqueue file hfile
    rw [getElem?_map] at hqueue
    obtain ⟨queue', hqueue', rfl⟩ := Option.map_eq_some_iff.mp hqueue
    exact hplaced hstandby queueIdx queue' hqueue' file ((hsort queue').mem_iff.mp hfile)

/-! ### The loop over a queue -/

def backupSizeOriginal (fileList : List BackupJobFile) : ℕ :=
  (fileList.map (fun file => file.sizeOriginal)).sum

/-- No file but the first is added when the original sizes in the job and its
size reach the size of a bundle. -/
def BackupJobFits (config : BackupJobConfig) (fileList : List BackupJobFile) : Prop :=
  ∀ before file after, fileList = before ++ file :: after → before ≠ [] →
    backupSizeOriginal before + file.size < config.bundleSize

theorem BackupJobFits.append {fileList : List BackupJobFile} (h : BackupJobFits config fileList)
    {file : BackupJobFile}
    (hfile : fileList ≠ [] → backupSizeOriginal fileList + file.size < config.bundleSize) :
    BackupJobFits config (fileList ++ [file]) := by
  intro before file' after heq hne
  rcases eq_nil_or_concat after with rfl | ⟨after', last, rfl⟩
  · obtain ⟨rfl, hlast⟩ := append_inj' heq rfl
    obtain rfl : file = file' := by simpa using hlast
    exact hfile hne
  · rw [concat_eq_append, ← cons_append, ← append_assoc] at heq
    obtain ⟨rfl, -⟩ := append_inj' heq rfl
    exact h before file' after' rfl hne

theorem backupSizeOriginal_append (fileList : List BackupJobFile) (file : BackupJobFile) :
    backupSizeOriginal (fileList ++ [file]) = backupSizeOriginal fileList + file.sizeOriginal := by
  simp [backupSizeOriginal]

/-- The variables of the loop agree. -/
structure BackupJobState.Ok (config : BackupJobConfig) (state : BackupJobState) : Prop where
  fileTotal : state.fileTotal = state.fileList.length
  fileSize : state.fileSize = backupSizeOriginal state.fileList
  fits : BackupJobFits config state.fileList

def BackupJobState.add (config : BackupJobConfig) (state : BackupJobState) (file : ManifestFile) :
    BackupJobState :=
  { state with
    fileList := state.fileList ++ [backupJobFile config file]
    fileTotal := state.fileTotal + 1
    fileSize := state.fileSize + file.sizeOriginal }

theorem BackupJobState.Ok.add {state : BackupJobState} (h : state.Ok config)
    (hfile : ¬ (state.fileTotal > 0 && state.fileSize + file.size ≥ config.bundleSize) = true) :
    (state.add config file).Ok config := by
  refine ⟨?_, ?_, h.fits.append (fun hne => ?_)⟩
  · simp [BackupJobState.add, h.fileTotal]
  · show state.fileSize + file.sizeOriginal = _
    rw [h.fileSize]
    exact (backupSizeOriginal_append state.fileList (backupJobFile config file)).symm
  · have hpos : state.fileTotal > 0 := by
      rw [h.fileTotal]
      exact length_pos_iff.mpr hne
    rw [← h.fileSize]
    show state.fileSize + file.size < config.bundleSize
    simpa [hpos] using hfile

variable {data : BackupJobData}

/-- **The loop goes on with a bundle.** It takes some of the files and leaves
the others in their order. -/
theorem backupJobQueueLoop_bundle (queue : List ManifestFile) :
    ∀ state : BackupJobState, state.Ok data.config → state.param.isSome → state.bundle = true →
    ∃ state' taken left, backupJobQueueLoop data state queue = .ok (state', left) ∧
      state'.Ok data.config ∧ state'.param = state.param ∧ state'.bundle = true ∧
      state'.fileList = state.fileList ++ taken.map (backupJobFile data.config) ∧
      queue.Perm (taken ++ left) ∧ left.Sublist queue := by
  induction queue with
  | nil =>
    intro state hok _ hbundle
    exact ⟨state, [], [], rfl, hok, rfl, hbundle, by simp, List.Perm.refl _, List.Sublist.refl _⟩
  | cons file queue ih =>
    intro state hok hparam hbundle
    rw [backupJobQueueLoop]
    by_cases hskip : (state.fileTotal > 0 && state.fileSize + file.size ≥ data.config.bundleSize) = true
    · obtain ⟨state', taken, left, hloop, hok', hparam', hbundle', hlist, hperm, hsub⟩ :=
        ih state hok hparam hbundle
      rw [if_pos hskip, hloop]
      refine ⟨state', taken, file :: left, rfl, hok', hparam', hbundle', hlist, ?_,
        hsub.cons_cons file⟩
      exact (hperm.cons file).trans perm_middle.symm
    · rw [if_neg hskip]
      have hbegin : backupJobBegin data state file = .ok state := by
        obtain ⟨param, hparam⟩ := Option.isSome_iff_exists.mp hparam
        simp [backupJobBegin, hparam]
      rw [hbegin]
      show ∃ state' taken left, (if !(state.add data.config file).bundle ||
          (state.add data.config file).fileSize ≥ data.config.bundleSize then
            Except.ok (state.add data.config file, queue)
          else backupJobQueueLoop data (state.add data.config file) queue) = .ok (state', left) ∧ _
      split
      · exact ⟨state.add data.config file, [file], queue, rfl, hok.add hskip, rfl, hbundle, rfl,
          List.Perm.refl _, sublist_cons_self ..⟩
      · obtain ⟨state', taken, left, hloop, hok', hparam', hbundle', hlist, hperm, hsub⟩ :=
          ih (state.add data.config file) (hok.add hskip) hparam hbundle
        refine ⟨state', file :: taken, left, hloop, hok', hparam', hbundle', ?_, hperm.cons file,
          hsub.cons file⟩
        rw [hlist]
        simp [BackupJobState.add]

/-- What a job takes from a queue, when the bundle id is `bundleId`. -/
structure BackupJobTaken (config : BackupJobConfig) (bundleId : ℕ) (queue : List ManifestFile)
    (job : BackupJob) (taken left : List ManifestFile) : Prop where
  fileList : job.fileList = taken.map (backupJobFile config)
  perm : queue.Perm (taken ++ left)
  sublist : left.Sublist queue
  fits : BackupJobFits config job.fileList
  /-- A bundle has the next id and only small files. -/
  bundle : ∀ id, job.bundleId? = some id → id = bundleId ∧ job.param.bundleId = id ∧
    ∀ file ∈ taken, file.size ≤ config.bundleLimit
  /-- A job that is not a bundle has one file, by whose name it is known. -/
  file : job.bundleId? = none → job.param.bundleId = 0 ∧
    ∃ file, taken = [file] ∧ job.key = .file file.name

theorem backupJobStateNew_ok (config : BackupJobConfig) : (backupJobStateNew config).Ok config := by
  refine ⟨rfl, rfl, ?_⟩
  intro before file after heq
  cases before <;> cases heq

theorem BackupQueueOrdered.small
    (h : BackupQueueOrdered config (file :: queue)) (hbundle : config.bundle = true)
    (hfile : file.size ≤ config.bundleLimit) :
    ∀ file' ∈ file :: queue, file'.size ≤ config.bundleLimit := by
  intro file' hmem
  rcases mem_cons.mp hmem with rfl | hmem
  · exact hfile
  · refine Nat.le_of_not_lt (fun hlarge => ?_)
    exact Nat.not_lt_of_le hfile ((pairwise_cons.mp h).1 file' hmem hbundle hlarge)

/-- A small file begins a bundle: the loop goes on as if the common parameters
were there before. -/
theorem backupJobQueueLoop_small (queue : List ManifestFile)
    (hbundle : data.config.bundle = true) (hfile : file.size ≤ data.config.bundleLimit) :
    backupJobQueueLoop data (backupJobStateNew data.config) (file :: queue) =
      backupJobQueueLoop data
        { backupJobStateNew data.config with param := some (backupJobParam data file true) }
        (file :: queue) := by
  rw [backupJobQueueLoop, backupJobQueueLoop]
  simp [backupJobBegin, backupJobStateNew, hbundle, hfile]

/-- A file that does not fit into a bundle is a job of its own. -/
theorem backupJobQueueLoop_large (queue : List ManifestFile)
    (h : ¬ (data.config.bundle = true ∧ file.size ≤ data.config.bundleLimit)) :
    backupJobQueueLoop data (backupJobStateNew data.config) (file :: queue) =
      .ok ({ (backupJobStateNew data.config).add data.config file with
        param := some (backupJobParam data file false)
        fileName := some file.name
        bundle := false }, queue) := by
  have hbegin : backupJobBegin data (backupJobStateNew data.config) file =
      .ok { backupJobStateNew data.config with
        param := some (backupJobParam data file false)
        fileName := some file.name
        bundle := false } := by
    unfold backupJobBegin
    simp only [backupJobStateNew, Bool.and_eq_true, decide_eq_true_eq, h, if_false, if_true]
  rw [backupJobQueueLoop, if_neg (by simp [backupJobStateNew]), hbegin]
  rfl

/-- **A job is taken from every queue that has a file.** -/
theorem backupJobTake_cons
    (hqueue : data.queueList[queueIdx]? = some (file :: queue))
    (hordered : BackupQueueOrdered data.config (file :: queue)) :
    ∃ job taken left, BackupJobTaken data.config data.bundleId (file :: queue) job taken left ∧
      backupJobTake data queueIdx = some (.ok (job,
        { data with
          bundleId := if job.bundleId?.isSome then data.bundleId + 1 else data.bundleId
          queueList := data.queueList.set queueIdx left })) := by
  have hnew := backupJobStateNew_ok data.config
  unfold backupJobTake
  rw [getD_eq_getElem?_getD, hqueue, Option.getD_some]
  by_cases hbundle : data.config.bundle = true ∧ file.size ≤ data.config.bundleLimit
  · have hsmall := hordered.small hbundle.1 hbundle.2
    obtain ⟨state, taken, left, hloop, hok, hparam, hstate, hlist, hperm, hsub⟩ :=
      backupJobQueueLoop_bundle (file :: queue)
        { backupJobStateNew data.config with param := some (backupJobParam data file true) }
        ⟨hnew.fileTotal, hnew.fileSize, hnew.fits⟩ rfl hbundle.1
    rw [backupJobQueueLoop_small queue hbundle.1 hbundle.2, hloop]
    dsimp only
    rw [hparam]
    rw [hstate, if_pos rfl, if_pos rfl]
    refine ⟨⟨.bundle data.bundleId, backupJobParam data file true, state.fileList⟩, taken, left,
      ⟨hlist, hperm, hsub, hok.fits, ?_, nofun⟩, rfl⟩
    intro id hid
    cases hid
    refine ⟨rfl, rfl, fun file' hmem => hsmall file' ?_⟩
    exact hperm.mem_iff.mpr (mem_append_left _ hmem)
  · rw [backupJobQueueLoop_large queue hbundle]
    dsimp only
    rw [if_neg (by decide), if_neg (by decide)]
    refine ⟨⟨.file file.name, backupJobParam data file false, [backupJobFile data.config file]⟩,
      [file], queue, ⟨rfl, List.Perm.refl _, sublist_cons_self .., ?_, nofun, fun _ =>
        ⟨rfl, file, rfl, rfl⟩⟩, rfl⟩
    exact hnew.fits.append (fun hne => absurd rfl hne)

theorem backupJobTake_nil (hqueue : data.queueList[queueIdx]? = some []) :
    backupJobTake data queueIdx = none := by
  unfold backupJobTake
  rw [getD_eq_getElem?_getD, hqueue]
  rfl

/-! ### One call -/

/-- The queues that a client scans: the primary has queue 0 of a backup from
standby, which the other clients leave to it. -/
def BackupClientQueue (config : BackupJobConfig) (clientIdx queueIdx : ℕ) : Prop :=
  config.backupStandby = true → (queueIdx = 0 ↔ clientIdx = 0)

/-- The queues are ordered, and there are as many as are needed. -/
structure BackupQueues (data : BackupJobData) : Prop where
  ordered : ∀ queue ∈ data.queueList, BackupQueueOrdered data.config queue
  total : backupQueueOffset data.config < data.queueList.length

theorem backupJobTake_cases (hdata : BackupQueues data)
    (hlt : queueIdx < data.queueList.length) :
    (backupJobTake data queueIdx = none ∧ data.queueList[queueIdx]? = some []) ∨
    ∃ queue job taken left, data.queueList[queueIdx]? = some queue ∧
      BackupJobTaken data.config data.bundleId queue job taken left ∧
      backupJobTake data queueIdx = some (.ok (job,
        { data with
          bundleId := if job.bundleId?.isSome then data.bundleId + 1 else data.bundleId
          queueList := data.queueList.set queueIdx left })) := by
  obtain ⟨queue, hqueue⟩ : ∃ queue, data.queueList[queueIdx]? = some queue :=
    ⟨_, getElem?_eq_getElem hlt⟩
  cases queue with
  | nil => exact Or.inl ⟨backupJobTake_nil hqueue, hqueue⟩
  | cons file queue =>
    obtain ⟨job, taken, left, htaken, htake⟩ :=
      backupJobTake_cons hqueue (hdata.ordered _ (mem_of_getElem? hqueue))
    exact Or.inr ⟨file :: queue, job, taken, left, hqueue, htaken, htake⟩

/-- The scan of a client ends. It has found a job at one of the queues of the
client, or all of them are empty. -/
theorem backupJobScan (hdata : BackupQueues data) (clientIdx : ℕ) {fuel : ℕ}
    (hfuel : data.queueList.length ≤ fuel) :
    (∃ queueIdx result, BackupClientQueue data.config clientIdx queueIdx ∧
      queueIdx < data.queueList.length ∧ backupJobTake data queueIdx = some (.ok result) ∧
      backupJobCallback fuel data clientIdx = some (.ok (some result.1, result.2))) ∨
    (backupJobCallback fuel data clientIdx = some (.ok (none, data)) ∧
      ∀ queueIdx < data.queueList.length, BackupClientQueue data.config clientIdx queueIdx →
        backupJobTake data queueIdx = none) := by
  have htotal := hdata.total
  unfold backupQueueOffset at htotal
  unfold backupJobCallback
  by_cases hprimary : data.config.backupStandby = true ∧ clientIdx = 0
  · -- the primary only has one queue
    obtain ⟨hstandby, rfl⟩ := hprimary
    simp only [hstandby, if_true] at htotal
    obtain ⟨fuel, rfl⟩ := Nat.exists_eq_add_of_le' (show 1 ≤ fuel by omega)
    simp only [backupJobQueueOffset, hstandby, Queues.scan, Nat.lt_irrefl, decide_false,
      Bool.and_false, decide_true, Bool.and_true, if_true, Bool.false_eq_true, if_false,
      Int.toNat_zero, Nat.add_zero]
    rcases backupJobTake_cases hdata (show 0 < data.queueList.length by omega) with
      ⟨htake, -⟩ | ⟨queue, job, taken, left, -, -, htake⟩
    · right
      rw [htake]
      refine ⟨rfl, fun queueIdx _ hclient => ?_⟩
      rw [(hclient hstandby).mpr rfl, htake]
    · left
      rw [htake]
      exact ⟨0, _, fun _ => Iff.rfl, by omega, htake, rfl⟩
  · have hp : (data.config.backupStandby && decide (clientIdx = 0)) = false := by
      simpa using hprimary
    -- the queues of the client are those from the offset on
    have hclient : ∀ queueIdx, BackupClientQueue data.config clientIdx queueIdx ↔
        backupJobQueueOffset data clientIdx ≤ queueIdx := by
      intro queueIdx
      unfold BackupClientQueue backupJobQueueOffset
      cases hstandby : data.config.backupStandby with
      | false => simp
      | true =>
        have hne : clientIdx ≠ 0 := fun h => hprimary ⟨hstandby, h⟩
        simp [hne, Nat.pos_of_ne_zero hne, Nat.one_le_iff_ne_zero]
    have hoffset : backupJobQueueOffset data clientIdx < data.queueList.length := by
      refine lt_of_le_of_lt ?_ hdata.total
      unfold backupJobQueueOffset backupQueueOffset
      cases data.config.backupStandby
      · simp
      · simp only [Bool.true_and, if_true]
        split <;> decide
    generalize backupJobQueueOffset data clientIdx = queueOffset at hclient hoffset
    simp only [hp, Bool.false_eq_true, if_false]
    have hpos : 0 < data.queueList.length - queueOffset := by omega
    have hstart : ((clientIdx % (data.queueList.length - queueOffset) : ℕ) : ℤ) <
        (data.queueList.length - queueOffset : ℕ) := by
      exact_mod_cast Nat.mod_lt _ hpos
    rw [show (fun queueIdx => backupJobQueueNext clientIdx queueIdx
        (data.queueList.length - queueOffset)) = Queues.next (decide (clientIdx % 2 ≠ 0))
          (data.queueList.length - queueOffset) from rfl]
    rcases Queues.scan_next (decide (clientIdx % 2 ≠ 0))
        (fun queueIdx => backupJobTake data (queueIdx.toNat + queueOffset))
        (Int.natCast_nonneg _) hstart (show _ ≤ fuel by omega) with
      ⟨item, position, hscan, hnonneg, hlt, htake⟩ | ⟨hscan, hnone⟩
    · left
      have hidx : position.toNat + queueOffset < data.queueList.length := by omega
      rcases backupJobTake_cases hdata hidx with
        ⟨htake', -⟩ | ⟨queue, job, taken, left, -, -, htake'⟩
      · rw [htake'] at htake
        cases htake
      · rw [htake'] at htake
        cases htake
        refine ⟨_, _, (hclient _).mpr (Nat.le_add_left ..), hidx, htake', ?_⟩
        rw [hscan]
    · right
      rw [hscan]
      refine ⟨rfl, fun queueIdx hlt hqueue => ?_⟩
      rw [hclient] at hqueue
      have := hnone (queueIdx - queueOffset : ℕ) (Int.natCast_nonneg _) (by omega)
      rwa [Int.toNat_natCast, Nat.sub_add_cancel hqueue] at this

/-! ### The whole run -/

/-- The state of the callback and the calls so far, with what they returned. -/
structure BackupJobRun where
  data : BackupJobData
  calls : List (ℕ × Option BackupJob)

/-- A client calls the callback. There is no next state when the call throws an
error or does not end after it has seen every queue once. -/
def backupJobStep (s : BackupJobRun) (clientIdx : ℕ) : Option BackupJobRun :=
  match backupJobCallback s.data.queueList.length s.data clientIdx with
  | some (.ok (job, data)) => some ⟨data, s.calls ++ [(clientIdx, job)]⟩
  | _ => none

def BackupJobRun.jobList (s : BackupJobRun) : List BackupJob := s.calls.filterMap Prod.snd

/-- **What the scheduler promises for a job** that a client got. -/
structure BackupJobOk (config : BackupJobConfig) (clientIdx : ℕ) (job : BackupJob) : Prop where
  /-- The first client has the files that must come from the primary, the others
  have the other ones. -/
  standby : config.backupStandby = true → ∀ file ∈ job.fileList,
    (backupProcessFilePrimary config.pgXactPath file.manifestFile = true ↔ clientIdx = 0)
  /-- A job that is not a bundle has one file. -/
  file : job.bundleId? = none → job.fileList.length = 1
  /-- A bundle has only small files. -/
  bundle : job.bundleId?.isSome → ∀ file ∈ job.fileList, file.size ≤ config.bundleLimit
  fits : BackupJobFits config job.fileList

structure BackupJobInv (config : BackupJobConfig) (s : BackupJobRun) : Prop where
  same : s.data.config = config
  queues : BackupQueues s.data
  placed : BackupQueuesPlaced config s.data.queueList
  perm : (s.jobList.flatMap BackupJob.fileList ++
    s.data.queueList.flatten.map (backupJobFile config)).Perm
      ((backupCopyList config.manifest).map (backupJobFile config))
  jobs : ∀ clientIdx job, (clientIdx, some job) ∈ s.calls → BackupJobOk config clientIdx job
  bundleId : s.data.bundleId = (s.jobList.filterMap BackupJob.bundleId?).length + 1
  bundleIds : s.jobList.filterMap BackupJob.bundleId? =
    range' 1 (s.jobList.filterMap BackupJob.bundleId?).length
  /-- The queues of a client that got `NULL` are empty. -/
  ended : ∀ clientIdx, (clientIdx, none) ∈ s.calls → ∀ (queueIdx : ℕ) queue,
    BackupClientQueue config clientIdx queueIdx → s.data.queueList[queueIdx]? = some queue →
    queue = []

/-- A call that returns `NULL` keeps the invariant. -/
theorem BackupJobInv.null {s : BackupJobRun} (hs : BackupJobInv config s) {clientIdx : ℕ}
    (hempty : ∀ (queueIdx : ℕ) queue, BackupClientQueue config clientIdx queueIdx →
      s.data.queueList[queueIdx]? = some queue → queue = []) :
    BackupJobInv config ⟨s.data, s.calls ++ [(clientIdx, none)]⟩ := by
  have hjobs : (⟨s.data, s.calls ++ [(clientIdx, none)]⟩ : BackupJobRun).jobList = s.jobList := by
    simp [BackupJobRun.jobList]
  refine ⟨hs.same, hs.queues, hs.placed, ?_, ?_, ?_, ?_, ?_⟩
  · rw [hjobs]
    exact hs.perm
  · intro clientIdx' job hmem
    exact hs.jobs clientIdx' job (by simpa using hmem)
  · rw [hjobs]
    exact hs.bundleId
  · rw [hjobs]
    exact hs.bundleIds
  · intro clientIdx' hmem
    rcases mem_append.mp hmem with hmem | hmem
    · exact hs.ended clientIdx' hmem
    · obtain rfl : clientIdx' = clientIdx := by simpa using hmem
      exact hempty

/-- **A call that returns a job keeps the invariant.** -/
theorem BackupJobInv.job {s : BackupJobRun} (hs : BackupJobInv config s) {clientIdx : ℕ}
    (hclient : BackupClientQueue config clientIdx queueIdx) {taken left : List ManifestFile}
    (hqueue : s.data.queueList[queueIdx]? = some queue) {job : BackupJob}
    (htaken : BackupJobTaken config s.data.bundleId queue job taken left) :
    BackupJobInv config
      ⟨{ s.data with
          bundleId := if job.bundleId?.isSome then s.data.bundleId + 1 else s.data.bundleId
          queueList := s.data.queueList.set queueIdx left },
        s.calls ++ [(clientIdx, some job)]⟩ := by
  have hmem := mem_of_getElem? hqueue
  have hjobs : (⟨{ s.data with
          bundleId := if job.bundleId?.isSome then s.data.bundleId + 1 else s.data.bundleId
          queueList := s.data.queueList.set queueIdx left },
        s.calls ++ [(clientIdx, some job)]⟩ : BackupJobRun).jobList = s.jobList ++ [job] := by
    simp [BackupJobRun.jobList]
  refine ⟨hs.same, ⟨?_, ?_⟩, ?_, ?_, ?_, ?_, ?_, ?_⟩
  · intro queue' hmem'
    rcases mem_or_eq_of_mem_set hmem' with hmem' | rfl
    · exact hs.queues.ordered queue' hmem'
    · exact (hs.queues.ordered queue hmem).sublist htaken.sublist
  · show _ < (s.data.queueList.set queueIdx left).length
    rw [length_set]
    exact hs.queues.total
  · intro hstandby i queue' hqueue' file hfile
    by_cases hi : queueIdx = i
    · subst hi
      obtain ⟨hlt, -⟩ := List.getElem?_eq_some_iff.mp hqueue
      rw [getElem?_set_self hlt] at hqueue'
      cases hqueue'
      exact hs.placed hstandby queueIdx queue hqueue file (htaken.sublist.subset hfile)
    · rw [getElem?_set_ne hi] at hqueue'
      exact hs.placed hstandby i queue' hqueue' file hfile
  · rw [hjobs, flatMap_append]
    simp only [flatMap_singleton, htaken.fileList, append_assoc]
    refine (List.Perm.append_left _ ?_).trans hs.perm
    rw [← map_append]
    exact ((Queues.flatten_set_perm hqueue htaken.perm).map _).symm
  · intro clientIdx' job' hmem'
    rcases mem_append.mp hmem' with hmem' | hmem'
    · exact hs.jobs clientIdx' job' hmem'
    · obtain ⟨rfl, rfl⟩ : clientIdx' = clientIdx ∧ job' = job := by simpa using hmem'
      refine ⟨fun hstandby file hfile => ?_, fun hnone => ?_, fun hsome file hfile => ?_,
        htaken.fits⟩
      · rw [htaken.fileList] at hfile
        obtain ⟨file', hfile', rfl⟩ := mem_map.mp hfile
        have hin : file' ∈ queue := htaken.perm.mem_iff.mpr (mem_append_left _ hfile')
        exact (hs.placed hstandby queueIdx queue hqueue file' hin).trans (hclient hstandby)
      · obtain ⟨-, file, htakenEq, -⟩ := htaken.file hnone
        rw [htaken.fileList, htakenEq]
        rfl
      · obtain ⟨id, hid⟩ := Option.isSome_iff_exists.mp hsome
        rw [htaken.fileList] at hfile
        obtain ⟨file', hfile', rfl⟩ := mem_map.mp hfile
        exact (htaken.bundle id hid).2.2 file' hfile'
  · rw [hjobs, filterMap_append, length_append]
    cases hid : job.bundleId? with
    | none => simpa [hid] using hs.bundleId
    | some id => simp [hid, hs.bundleId]
  · rw [hjobs, filterMap_append, length_append]
    cases hid : job.bundleId? with
    | none => simpa [hid] using hs.bundleIds
    | some id =>
      obtain ⟨rfl, -⟩ := htaken.bundle id hid
      simp only [filterMap_cons, hid, filterMap_nil, length_singleton]
      rw [range'_concat, ← hs.bundleIds, hs.bundleId]
      simp [Nat.add_comm]
  · intro clientIdx' hmem' i queue' hclient' hqueue'
    have hmem' : (clientIdx', none) ∈ s.calls := by simpa using hmem'
    by_cases hi : queueIdx = i
    · subst hi
      obtain ⟨hlt, -⟩ := List.getElem?_eq_some_iff.mp hqueue
      rw [getElem?_set_self hlt] at hqueue'
      cases hqueue'
      have hnil := hs.ended clientIdx' hmem' queueIdx queue hclient' hqueue
      exact sublist_nil.mp (hnil ▸ htaken.sublist)
    · rw [getElem?_set_ne hi] at hqueue'
      exact hs.ended clientIdx' hmem' i queue' hclient' hqueue'

/-- **One call**: it ends without an error and keeps the invariant. -/
theorem BackupJobInv.step {s : BackupJobRun} (hs : BackupJobInv config s) (clientIdx : ℕ) :
    ∃ s', backupJobStep s clientIdx = some s' ∧ BackupJobInv config s' := by
  obtain rfl := hs.same
  unfold backupJobStep
  rcases backupJobScan hs.queues clientIdx le_rfl with
    ⟨queueIdx, result, hclient, hlt, htake, hcallback⟩ | ⟨hcallback, hnone⟩
  · rw [hcallback]
    rcases backupJobTake_cases hs.queues hlt with
      ⟨htake', -⟩ | ⟨queue, job, taken, left, hqueue, htaken, htake'⟩
    · rw [htake'] at htake
      cases htake
    · rw [htake'] at htake
      cases htake
      exact ⟨_, rfl, hs.job hclient hqueue htaken⟩
  · rw [hcallback]
    refine ⟨_, rfl, hs.null (fun queueIdx queue hclient hqueue => ?_)⟩
    have hlt := (List.getElem?_eq_some_iff.mp hqueue).1
    rcases backupJobTake_cases hs.queues hlt with
      ⟨-, hempty⟩ | ⟨queue', job, taken, left, -, -, htake⟩
    · exact Option.some.inj (hqueue.symm.trans hempty)
    · rw [hnone queueIdx hlt hclient] at htake
      cases htake

theorem backupJobInv_initial {data : BackupJobData} (h : backupProcessQueue config = .ok data) :
    BackupJobInv config ⟨data, []⟩ := by
  obtain ⟨rfl, hbundleId, hlength, hordered, hplaced, hperm⟩ := backupProcessQueue_ok h
  refine ⟨rfl, ⟨hordered, ?_⟩, hplaced, hperm.map _, nofun, hbundleId, rfl, nofun⟩
  rw [hlength]
  exact Nat.lt_add_of_pos_left (Nat.succ_pos _)

/-- **Every file is handed out exactly once.** Whatever the order in which the
clients call, every call ends without an error; a job has what the scheduler
promises; the ids of the bundles are 1, 2, 3 and so on; and when every client
got `NULL`, the files of the jobs are the files that have to be copied. -/
theorem backupJobCallback_exactlyOnce (config : BackupJobConfig) (data : BackupJobData)
    (hqueue : backupProcessQueue config = .ok data) (clientTotal : ℕ)
    (htotal : (if config.backupStandby then 2 else 1) ≤ clientTotal) (clients : List ℕ) :
    ∃ t, Steps.run backupJobStep ⟨data, []⟩ clients = some t ∧
      (∀ clientIdx job, (clientIdx, some job) ∈ t.calls → BackupJobOk config clientIdx job) ∧
      t.jobList.filterMap BackupJob.bundleId? =
        range' 1 (t.jobList.filterMap BackupJob.bundleId?).length ∧
      ((∀ clientIdx < clientTotal, (clientIdx, none) ∈ t.calls) →
        (t.jobList.flatMap BackupJob.fileList).Perm
          ((backupCopyList config.manifest).map (backupJobFile config))) := by
  obtain ⟨t, hrun, ht⟩ := Steps.run_of_progress (P := fun _ s => BackupJobInv config s) clients
    (fun _ clientIdx _ s _ hs => hs.step clientIdx) (backupJobInv_initial hqueue)
  refine ⟨t, hrun, ht.jobs, ht.bundleIds, fun hended => ?_⟩
  have hempty : t.data.queueList.flatten = [] := by
    rw [flatten_eq_nil_iff]
    intro queue hmem
    obtain ⟨queueIdx, hqueueIdx⟩ := getElem?_of_mem hmem
    cases hstandby : config.backupStandby with
    | false =>
      rw [hstandby] at htotal
      exact ht.ended 0 (hended 0 htotal) queueIdx queue (fun h => absurd (hstandby.symm.trans h) nofun)
        hqueueIdx
    | true =>
      rw [hstandby] at htotal
      by_cases hzero : queueIdx = 0
      · exact ht.ended 0 (hended 0 (Nat.lt_of_lt_of_le Nat.two_pos htotal)) queueIdx queue
          (fun _ => ⟨fun _ => rfl, fun _ => hzero⟩) hqueueIdx
      · exact ht.ended 1 (hended 1 htotal) queueIdx queue
          (fun _ => ⟨fun h => absurd h hzero, fun h => absurd h nofun⟩) hqueueIdx
  have hperm := ht.perm
  rwa [hempty, map_nil, append_nil] at hperm

def backupFileSample (name : Str) (size : ℕ) : ManifestFile where
  name := name
  copy := true
  delta := false
  resume := false
  checksumPage := false
  checksumPageError := false
  mode := 384
  checksumSha1 := none
  checksumRepoSha1 := none
  checksumPageErrorList := none
  user := none
  group := none
  reference := none
  bundleId := 0
  bundleOffset := 0
  blockIncrSize := 0
  blockIncrChecksumSize := 0
  blockIncrMapSize := 0
  size := size
  sizeOriginal := size
  sizeRepo := 0
  timestamp := 0

/-- A backup from standby with bundles: `pg_control`, a large file and three
small ones, of which two fit into one bundle. -/
def backupJobConfigSample : BackupJobConfig where
  manifest :=
    { Manifest.plain "20200101-000000F".toList .full none ["20200101-000000F".toList] with
      fileList :=
        [backupFileSample "pg_data/base/1/1".toList 3,
          backupFileSample "pg_data/base/1/2".toList 20,
          backupFileSample "pg_data/base/1/3".toList 3,
          backupFileSample "pg_data/base/1/4".toList 3,
          backupFileSample pgControlName 8] }
  backupLabel := "20200101-000000F".toList
  backupStandby := true
  pgXactPath := "pg_xact".toList
  compressType := .gz
  compressLevel := 6
  cipherSubPass := none
  pageSize := 8192
  bundle := true
  bundleSize := 8
  bundleLimit := 4
  blockIncr := false
  blockIncrSizeSuper := 0
  pgVersionForce := none
  pageHeaderCheck := true
  online := true

theorem backupJobCallback_exactlyOnce_sample :
    ∃ data t, backupProcessQueue backupJobConfigSample = .ok data ∧
      Steps.run backupJobStep ⟨data, []⟩ [1, 2, 0, 1, 2, 1, 0] = some t ∧
      t.jobList.length = 4 ∧
      (t.jobList.flatMap BackupJob.fileList).Perm
        ((backupCopyList backupJobConfigSample.manifest).map (backupJobFile backupJobConfigSample)) := by
  have heval : (match backupProcessQueue backupJobConfigSample with
      | .ok data => (Steps.run backupJobStep ⟨data, []⟩ [1, 2, 0, 1, 2, 1, 0]).map
          (fun t => (t.calls.map (fun call => (call.1, call.2.isSome)), t.jobList.length))
      | .error _ => none) =
      some ([(1, true), (2, true), (0, true), (1, true), (2, false), (1, false), (0, false)],
        4) := by
    decide +kernel
  cases hqueue : backupProcessQueue backupJobConfigSample with
  | error error =>
    rw [hqueue] at heval
    cases heval
  | ok data =>
    rw [hqueue] at heval
    obtain ⟨t, hrun, ht⟩ := Option.map_eq_some_iff.mp heval
    obtain ⟨hcalls, hlength⟩ := Prod.mk.inj ht
    obtain ⟨t', hrun', -, -, hall⟩ := backupJobCallback_exactlyOnce backupJobConfigSample data hqueue
      3 (by decide) [1, 2, 0, 1, 2, 1, 0]
    cases hrun.symm.trans hrun'
    -- the calls that returned `NULL`
    have hnull : ∀ clientIdx < 3, (clientIdx, none) ∈ t.calls := by
      intro clientIdx hlt
      have hmem : (clientIdx, false) ∈ t.calls.map (fun call => (call.1, call.2.isSome)) := by
        rw [hcalls]
        match clientIdx, hlt with
        | 0, _ => decide
        | 1, _ => decide
        | 2, _ => decide
      obtain ⟨⟨clientIdx', job⟩, hcall, heq⟩ := mem_map.mp hmem
      obtain ⟨rfl, hjob⟩ := Prod.mk.inj heq
      cases job with
      | none => exact hcall
      | some job => cases hjob
    exact ⟨data, t, rfl, hrun, hlength, hall hnull⟩

end PgxBackup
