import Mathlib.Data.List.FinRange
import PgxBackup.RepoFiles

/-!
# Annotating a backup

The annotate command sets and removes annotations of a backup in all
repositories, or in the one that is selected. The list of each repository is
loaded and saved with the annotations if it has the backup. An error in one
repository does not keep the command from going on with the next.

The list that was changed belongs to the repository it was loaded from. It is
saved to the default repository, which is another one unless a repository was
selected or only the first one has the backup.
-/

namespace PgxBackup

open List

/-! ## Setting annotations -/

/-- Update annotations: if the new value is empty the key is removed, else
the key and value are put. -/
def annotationPut (newAnnotationKv annotationKv : Annotation) (newKey : Str) : Annotation :=
  match kvGet newAnnotationKv newKey with
  | none => annotationKv
  | some newValue =>
    if newValue = [] then kvRemove annotationKv newKey
    else kvPut annotationKv newKey newValue

/-- Set the annotations of a backup. The field is cleaned if there are no
annotations left. -/
def InfoBackupData.annotationSet (newAnnotationKv : Annotation) (b : InfoBackupData) :
    InfoBackupData :=
  let annotationKv := (kvKeyList newAnnotationKv).foldl (annotationPut newAnnotationKv)
    (b.backupAnnotation.getD [])
  { b with backupAnnotation := if annotationKv = [] then none else some annotationKv }

/-- **Set the annotations of the backup with the label**
(`infoBackupDataAnnotationSet`). -/
def infoBackupDataAnnotationSet (info : InfoBackupLoaded) (backupLabel : Str)
    (newAnnotationKv : Annotation) : InfoBackupLoaded :=
  { info with
    backup := info.backup.modify (info.backup.findIdx (fun b => b.backupLabel == backupLabel))
      (InfoBackupData.annotationSet newAnnotationKv)
    updated := true }

/-! ## The command -/

/-- The options of the command; a repository is selected by its index. -/
structure AnnotateParam (n : ℕ) where
  repo : Option (Fin (n + 1))
  set : Str
  annotation : Annotation

variable {n : ℕ}

/-- `cfgOptionGroupIdxDefault(cfgOptGrpRepo)`. -/
def AnnotateParam.repoIdxDefault (param : AnnotateParam n) : Fin (n + 1) := param.repo.getD 0

/-- The repositories of the loop: all of them, or the one that is selected. -/
def AnnotateParam.repoIdxList (param : AnnotateParam n) : List (Fin (n + 1)) :=
  match param.repo with
  | none => finRange (n + 1)
  | some repoIdx => [repoIdx]

/-- The repositories and the totals of the loop. -/
structure AnnotateState (n : ℕ) where
  repos : Fin (n + 1) → RepoFiles
  backupTotalProcessed : ℕ
  errorTotal : ℕ

/-- One repository. The list is loaded from it, and is saved with
`storageRepoWrite`. -/
def annotateRepo (io : InfoBackupIo) (param : AnnotateParam n) (state : AnnotateState n)
    (repoIdx : Fin (n + 1)) : AnnotateState n :=
  let repo := state.repos repoIdx
  match repo.infoBackupLoadFileReconstruct io with
  | .error _ => { state with errorTotal := state.errorTotal + 1 }
  | .ok infoBackup =>
    if infoBackupLabelExists infoBackup.toInfoBackup param.set then
      let state := { state with backupTotalProcessed := state.backupTotalProcessed + 1 }
      match (state.repos param.repoIdxDefault).infoBackupSaveFile io repoIdx
        (infoBackupDataAnnotationSet infoBackup param.set param.annotation) repo.cipherPass with
      | .error _ => { state with errorTotal := state.errorTotal + 1 }
      | .ok storage =>
        { state with repos := Function.update state.repos param.repoIdxDefault storage }
    else state

/-- **Annotate a backup** (`cmdAnnotate`): the repositories afterwards and
whether an error is thrown. -/
def cmdAnnotate (io : InfoBackupIo) (param : AnnotateParam n) (repos : Fin (n + 1) → RepoFiles) :
    (Fin (n + 1) → RepoFiles) × Except Error Unit :=
  if backupRegExp backupAllRegExp param.set then
    let state := param.repoIdxList.foldl (annotateRepo io param)
      { repos := repos, backupTotalProcessed := 0, errorTotal := 0 }
    (state.repos,
      if state.errorTotal > 0 then
        .error ⟨.commandError, "annotate command encountered ".toList ++
          Nat.toDigits 10 state.errorTotal ++ " error(s), check the log file for details".toList⟩
      else if state.backupTotalProcessed = 0 then
        .error ⟨.backupSetInvalidError, "no backup set to annotate found".toList⟩
      else .ok ())
  else
    (repos, .error ⟨.optionInvalidValueError,
      "'".toList ++ param.set ++ "' is not a valid backup label format".toList⟩)

/-! ## What the annotations are to be -/

/-- The value of a key: the new one unless it is empty, or the old one. -/
def annotationValue (new old : Annotation) (key : Str) : Option Str :=
  match kvGet new key with
  | none => kvGet old key
  | some value => if value = [] then none else some value

/-- **The old annotations overridden by the new ones**, without the keys of
an empty value, and without a field if none is left. -/
structure AnnotationOverridden (old : Option Annotation) (new : Annotation)
    (result : Option Annotation) : Prop where
  get_eq : ∀ key, kvGet (result.getD []) key = annotationValue new (old.getD []) key
  distinct : AnnotationDistinct result
  ne_nil : result ≠ some []

section Value

variable {new kv : Annotation}

theorem nodup_annotationPut (h : (kvKeyList kv).Nodup) (newKey : Str) :
    (kvKeyList (annotationPut new kv newKey)).Nodup := by
  unfold annotationPut
  split
  · exact h
  · split
    · exact nodup_kvRemove h newKey
    · exact nodup_kvPut h newKey _

theorem kvGet_annotationPut (new : Annotation) (h : (kvKeyList kv).Nodup) (newKey key : Str) :
    kvGet (annotationPut new kv newKey) key
      = if key = newKey then annotationValue new kv key else kvGet kv key := by
  unfold annotationPut annotationValue
  by_cases hkey : key = newKey
  · rw [if_pos hkey, hkey]
    cases kvGet new newKey with
    | none => rfl
    | some value =>
      dsimp only
      split
      · rw [kvGet_kvRemove h, if_pos rfl]
      · rw [kvGet_kvPut, if_pos rfl]
  · rw [if_neg hkey]
    cases kvGet new newKey with
    | none => rfl
    | some value =>
      dsimp only
      split
      · rw [kvGet_kvRemove h, if_neg hkey]
      · rw [kvGet_kvPut, if_neg hkey]

/-- The loop over the keys: a key that was passed has its new value. -/
theorem foldl_annotationPut (new : Annotation) (keys : List Str)
    (h : (kvKeyList kv).Nodup) :
    (kvKeyList (keys.foldl (annotationPut new) kv)).Nodup ∧
      ∀ key, kvGet (keys.foldl (annotationPut new) kv) key
        = if key ∈ keys then annotationValue new kv key else kvGet kv key := by
  induction keys generalizing kv with
  | nil => exact ⟨h, fun key => (if_neg not_mem_nil).symm⟩
  | cons newKey keys ih =>
    obtain ⟨hnodup, hget⟩ := ih (nodup_annotationPut h newKey)
    refine ⟨hnodup, fun key => ?_⟩
    rw [foldl_cons, hget, kvGet_annotationPut new h]
    -- a key that comes again gets the same value
    have hvalue : annotationValue new (annotationPut new kv newKey) key
        = annotationValue new kv key := by
      have hput := kvGet_annotationPut new h newKey key
      unfold annotationValue at hput ⊢
      cases hnew : kvGet new key with
      | none =>
        rw [hnew] at hput
        rw [hput]
        exact ite_self _
      | some value => rfl
    rw [hvalue]
    by_cases hkey : key = newKey
    · rw [if_pos hkey, ite_self, if_pos (by rw [hkey]; exact mem_cons_self)]
    · simp only [mem_cons, hkey, false_or, if_false]

/-- **Annotations are set.** -/
theorem annotationSet_overridden (new : Annotation) {b : InfoBackupData}
    (h : AnnotationDistinct b.backupAnnotation) :
    AnnotationOverridden b.backupAnnotation new
      ( InfoBackupData.backupAnnotation (b.annotationSet new)) := by
  have hold : (kvKeyList (b.backupAnnotation.getD [])).Nodup := by
    cases hb : b.backupAnnotation with
    | none => exact nodup_nil
    | some kv => exact h kv hb
  obtain ⟨hnodup, hget⟩ := foldl_annotationPut new (kvKeyList new) hold
  have hget' (key : Str) : kvGet ((kvKeyList new).foldl (annotationPut new)
      (b.backupAnnotation.getD [])) key = annotationValue new (b.backupAnnotation.getD []) key := by
    rw [hget]
    split
    · rfl
    · rename_i hkey
      unfold annotationValue
      rw [kvGet_eq_none_iff.mpr hkey]
  unfold InfoBackupData.annotationSet
  dsimp only
  generalize (kvKeyList new).foldl (annotationPut new) (b.backupAnnotation.getD []) = result
    at hnodup hget'
  by_cases hnil : result = []
  · rw [if_pos hnil]
    rw [hnil] at hget'
    refine ⟨hget', fun kv hkv => ?_, fun heq => ?_⟩
    · cases hkv
    · cases heq
  · rw [if_neg hnil]
    refine ⟨hget', fun kv hkv => ?_, fun heq => hnil (Option.some.inj heq)⟩
    rw [← Option.some.inj hkv]
    exact hnodup

end Value

/-! ## What a repository is to hold -/

/-- The list with the annotations of the entry overridden, and nothing else
changed. -/
structure AnnotatedList (label : Str) (new : Annotation) (info info' : InfoBackupLoaded) :
    Prop where
  infoPg_eq : info'.infoPg = info.infoPg
  cipherPass_eq : info'.cipherPass = info.cipherPass
  backup_eq : ∃ before b after annotation,
    info.backup = before ++ b :: after ∧ b.backupLabel = label ∧
    AnnotationOverridden b.backupAnnotation new annotation ∧
    info'.backup = before ++ { b with backupAnnotation := annotation } :: after

/-- The file and the copy hold the list. -/
def HoldsList (io : InfoBackupIo) (repo : RepoFiles) (info : InfoBackupLoaded) : Prop :=
  ∃ number bytes, io.infoBackupSave number repo.cipherPass info = .ok bytes ∧
    repo.backupInfo = some bytes ∧ repo.backupInfoCopy = some bytes

/-- **A repository is annotated**: it holds its own list with the annotations
overridden, and nothing else was changed. -/
def Annotated (io : InfoBackupIo) (param : AnnotateParam n) (repo repo' : RepoFiles) : Prop :=
  (repo'.path = repo.path ∧ repo'.cipherPass = repo.cipherPass ∧ repo'.paths = repo.paths) ∧
    ∃ info info', repo.infoBackupLoadFileReconstruct io = .ok info ∧
      AnnotatedList param.set param.annotation info info' ∧ HoldsList io repo' info'

/-- **The list with the label is annotated.** -/
theorem annotatedList_set {info : InfoBackupLoaded} {label : Str}
    (hlabel : infoBackupLabelExists info.toInfoBackup label = true)
    (hdistinct : AnnotationsDistinct info.backup) (new : Annotation) :
    AnnotatedList label new info (infoBackupDataAnnotationSet info label new) := by
  refine ⟨rfl, rfl, ?_⟩
  unfold infoBackupLabelExists at hlabel
  rw [any_eq_true] at hlabel
  have hidx := findIdx_lt_length.mpr hlabel
  have hfound := findIdx_getElem (w := hidx)
  unfold infoBackupDataAnnotationSet
  generalize info.backup.findIdx (fun b => b.backupLabel == label) = idx at hidx hfound
  refine ⟨info.backup.take idx, info.backup[idx], info.backup.drop (idx + 1),
    InfoBackupData.backupAnnotation (info.backup[idx].annotationSet new), ?_, beq_iff_eq.mp hfound,
    annotationSet_overridden new (hdistinct _ (getElem_mem hidx)), ?_⟩
  · rw [← drop_eq_getElem_cons hidx, take_append_drop]
  · rw [modify_eq_take_cons_drop hidx]
    rfl

/-! ## One repository -/

section Run

variable {io : InfoBackupIo} {param : AnnotateParam n}

/-- Does the list of a repository have the label? -/
def annotateFound (io : InfoBackupIo) (param : AnnotateParam n) (repo : RepoFiles) : Bool :=
  match repo.infoBackupLoadFileReconstruct io with
  | .error _ => false
  | .ok info => infoBackupLabelExists info.toInfoBackup param.set

/-- What is saved of a repository, if it has the label. -/
def annotateResult (io : InfoBackupIo) (param : AnnotateParam n) (repoIdx : Fin (n + 1))
    (repo : RepoFiles) : Except Error (Option Bytes) :=
  match repo.infoBackupLoadFileReconstruct io with
  | .error e => .error e
  | .ok info =>
    if infoBackupLabelExists info.toInfoBackup param.set then
      (io.infoBackupSave repoIdx repo.cipherPass
        (infoBackupDataAnnotationSet info param.set param.annotation)).map some
    else .ok none

/-- A repository fails if its list cannot be loaded or, with the label, cannot
be saved. -/
def annotateFailed (io : InfoBackupIo) (param : AnnotateParam n) (repoIdx : Fin (n + 1))
    (repo : RepoFiles) : Bool :=
  (annotateResult io param repoIdx repo).toOption.isNone

/-- The bytes that are put for a repository, if any. -/
def annotateBytes (io : InfoBackupIo) (param : AnnotateParam n) (repoIdx : Fin (n + 1))
    (repo : RepoFiles) : Option Bytes :=
  (annotateResult io param repoIdx repo).toOption.join

/-- Put bytes in a repository, if there are any. -/
def RepoFiles.putInfoIf (repo : RepoFiles) (bytes : Option Bytes) : RepoFiles :=
  bytes.elim repo repo.putInfo

theorem infoBackupSaveFile_set (storage : RepoFiles) (number : ℕ) (info : InfoBackupLoaded)
    (label : Str) (new : Annotation) (cipherPass : Option Str) :
    storage.infoBackupSaveFile io number (infoBackupDataAnnotationSet info label new) cipherPass
      = (io.infoBackupSave number cipherPass (infoBackupDataAnnotationSet info label new)).map
          storage.putInfo := by
  exact if_pos rfl

/-- **One repository**: the bytes are put in the default repository. -/
theorem annotateRepo_eq (state : AnnotateState n) (repoIdx : Fin (n + 1)) :
    annotateRepo io param state repoIdx =
      { repos := Function.update state.repos param.repoIdxDefault
          ((state.repos param.repoIdxDefault).putInfoIf
            (annotateBytes io param repoIdx (state.repos repoIdx)))
        backupTotalProcessed := state.backupTotalProcessed
          + (annotateFound io param (state.repos repoIdx)).toNat
        errorTotal := state.errorTotal
          + (annotateFailed io param repoIdx (state.repos repoIdx)).toNat } := by
  have hkeep : Function.update state.repos param.repoIdxDefault
      ((state.repos param.repoIdxDefault).putInfoIf none) = state.repos :=
    Function.update_eq_self _ _
  unfold annotateRepo annotateFailed annotateBytes annotateFound annotateResult
  dsimp only
  cases hload : (state.repos repoIdx).infoBackupLoadFileReconstruct io with
  | error e =>
    show _ = AnnotateState.mk (Function.update _ _ (RepoFiles.putInfoIf _ none)) _ _
    rw [hkeep]
    rfl
  | ok info =>
    dsimp only
    cases hlabel : infoBackupLabelExists info.toInfoBackup param.set with
    | false =>
      show _ = AnnotateState.mk (Function.update _ _ (RepoFiles.putInfoIf _ none)) _ _
      rw [hkeep]
      rfl
    | true =>
      rw [if_pos rfl, if_pos rfl, infoBackupSaveFile_set]
      cases io.infoBackupSave repoIdx (state.repos repoIdx).cipherPass
          (infoBackupDataAnnotationSet info param.set param.annotation) with
      | error e =>
        show _ = AnnotateState.mk (Function.update _ _ (RepoFiles.putInfoIf _ none)) _ _
        rw [hkeep]
        rfl
      | ok bytes => rfl

/-! ## All repositories -/

/-- What is saved last among repositories, if anything is. -/
def annotateLast (io : InfoBackupIo) (param : AnnotateParam n) (repos : Fin (n + 1) → RepoFiles)
    (repoIdxList : List (Fin (n + 1))) : Option Bytes :=
  (repoIdxList.filterMap (fun i => annotateBytes io param i (repos i))).getLast?

theorem putInfoIf_last (repo : RepoFiles) (bytes : Option Bytes) (saved : List Bytes) :
    (repo.putInfoIf bytes).putInfoIf saved.getLast?
      = repo.putInfoIf (bytes.toList ++ saved).getLast? := by
  cases hlast : saved.getLast? with
  | none =>
    rw [getLast?_eq_none_iff] at hlast
    rw [hlast, append_nil]
    cases bytes <;> rfl
  | some last =>
    rw [getLast?_append, hlast]
    cases bytes <;> rfl

/-- **The loop over repositories** that are not the default one: they are not
changed, and the default one has what is saved last. -/
theorem foldl_annotateRepo (repos : Fin (n + 1) → RepoFiles) {repoIdxList : List (Fin (n + 1))}
    (hlist : param.repoIdxDefault ∉ repoIdxList) (state : AnnotateState n)
    (hstate : ∀ i, i ≠ param.repoIdxDefault → state.repos i = repos i) :
    repoIdxList.foldl (annotateRepo io param) state =
      { repos := Function.update state.repos param.repoIdxDefault
          ((state.repos param.repoIdxDefault).putInfoIf
            (annotateLast io param repos repoIdxList))
        backupTotalProcessed := state.backupTotalProcessed
          + repoIdxList.countP (fun i => annotateFound io param (repos i))
        errorTotal := state.errorTotal
          + repoIdxList.countP (fun i => annotateFailed io param i (repos i)) } := by
  induction repoIdxList generalizing state with
  | nil =>
    have hkeep : Function.update state.repos param.repoIdxDefault
        ((state.repos param.repoIdxDefault).putInfoIf none) = state.repos :=
      Function.update_eq_self _ _
    show state = AnnotateState.mk (Function.update _ _ (RepoFiles.putInfoIf _ none)) _ _
    rw [hkeep]
    rfl
  | cons repoIdx repoIdxList ih =>
    rw [mem_cons, not_or] at hlist
    have hrepo := hstate repoIdx (Ne.symm hlist.1)
    rw [foldl_cons, annotateRepo_eq, hrepo, ih hlist.2 _ (fun i hi => ?_)]
    · dsimp only
      rw [Function.update_self, Function.update_idem, countP_cons, countP_cons]
      unfold annotateLast
      rw [putInfoIf_last, filterMap_cons]
      congr 1
      · cases annotateBytes io param repoIdx (repos repoIdx) <;> rfl
      · cases annotateFound io param (repos repoIdx)
        · rfl
        · exact Nat.add_right_comm _ _ _
      · cases annotateFailed io param repoIdx (repos repoIdx)
        · rfl
        · exact Nat.add_right_comm _ _ _
    · dsimp only
      rw [Function.update_of_ne hi]
      exact hstate i hi

/-- The repositories of the loop but for the default one. -/
def AnnotateParam.others (param : AnnotateParam n) : List (Fin (n + 1)) :=
  param.repoIdxList.filter (fun i => decide (i ≠ param.repoIdxDefault))

theorem repoIdxList_eq (param : AnnotateParam n) :
    param.repoIdxList = param.repoIdxDefault :: param.others := by
  unfold AnnotateParam.others AnnotateParam.repoIdxList AnnotateParam.repoIdxDefault
  cases param.repo with
  | none =>
    rw [Option.getD_none, finRange_succ, filter_cons_of_neg (by simp),
      filter_eq_self.mpr]
    intro i hi
    obtain ⟨j, -, rfl⟩ := mem_map.mp hi
    exact decide_eq_true (Fin.succ_ne_zero j)
  | some repoIdx =>
    rw [Option.getD_some, filter_cons_of_neg (by simp), filter_nil]

theorem mem_others {i : Fin (n + 1)} :
    i ∈ param.others ↔ i ∈ param.repoIdxList ∧ i ≠ param.repoIdxDefault := by
  unfold AnnotateParam.others
  rw [mem_filter, decide_eq_true_eq]

/-- **A run**: only the default repository is changed. -/
theorem foldl_repoIdxList (repos : Fin (n + 1) → RepoFiles) :
    param.repoIdxList.foldl (annotateRepo io param)
        { repos := repos, backupTotalProcessed := 0, errorTotal := 0 } =
      { repos := Function.update repos param.repoIdxDefault
          ((repos param.repoIdxDefault).putInfoIf (annotateLast io param repos param.repoIdxList))
        backupTotalProcessed :=
          param.repoIdxList.countP (fun i => annotateFound io param (repos i))
        errorTotal := param.repoIdxList.countP (fun i => annotateFailed io param i (repos i)) } := by
  have hnotMem : param.repoIdxDefault ∉ param.others := fun hmem => (mem_others.mp hmem).2 rfl
  rw [repoIdxList_eq, foldl_cons, annotateRepo_eq,
    foldl_annotateRepo repos hnotMem _ (fun i hi => Function.update_of_ne hi _ _)]
  dsimp only
  rw [Function.update_self, Function.update_idem, countP_cons, countP_cons]
  unfold annotateLast
  rw [putInfoIf_last, filterMap_cons]
  congr 1
  · cases annotateBytes io param param.repoIdxDefault (repos param.repoIdxDefault) <;> rfl
  · cases annotateFound io param (repos param.repoIdxDefault) <;> simp [Nat.add_comm]
  · cases annotateFailed io param param.repoIdxDefault (repos param.repoIdxDefault) <;>
      simp [Nat.add_comm]

/-! ## When the command touches what it names -/

/-- **The command touches only what it names.** A selected repository with the
label is annotated, every other repository is not changed, and an error is
thrown if and only if a selected repository failed or none has the label. -/
structure AnnotateFrame (io : InfoBackupIo) (param : AnnotateParam n)
    (repos repos' : Fin (n + 1) → RepoFiles) (result : Except Error Unit) : Prop where
  annotated : ∀ i ∈ param.repoIdxList, annotateFound io param (repos i) = true →
    Annotated io param (repos i) (repos' i)
  unchanged : ∀ i, i ∉ param.repoIdxList ∨ annotateFound io param (repos i) = false →
    repos' i = repos i
  throws_iff : (∃ e, result = .error e) ↔
    (∃ i ∈ param.repoIdxList, annotateFailed io param i (repos i) = true) ∨
      ∀ i ∈ param.repoIdxList, annotateFound io param (repos i) = false

/-- **No list goes to another repository.** Only the default repository has
the label, and its list can be saved. If another one has the label it holds
the annotations already, and what is saved of the last of them is what the
default repository is to hold. -/
structure AnnotateInPlace (io : InfoBackupIo) (param : AnnotateParam n)
    (repos : Fin (n + 1) → RepoFiles) : Prop where
  others : ∀ i ∈ param.others, annotateFound io param (repos i) = true →
    Annotated io param (repos i) (repos i)
  default_kept : annotateLast io param repos param.others = none →
    annotateFound io param (repos param.repoIdxDefault) = true →
    annotateFailed io param param.repoIdxDefault (repos param.repoIdxDefault) = true →
    Annotated io param (repos param.repoIdxDefault) (repos param.repoIdxDefault)
  default_put : ∀ bytes, annotateLast io param repos param.others = some bytes →
    if annotateFound io param (repos param.repoIdxDefault) then
      Annotated io param (repos param.repoIdxDefault)
        ((repos param.repoIdxDefault).putInfo bytes)
    else (repos param.repoIdxDefault).putInfo bytes = repos param.repoIdxDefault

/-- **Nothing is done** for a label that is not valid: no selected repository
has the label, or one failed and each one with the label holds the
annotations already. -/
structure AnnotateRefused (io : InfoBackupIo) (param : AnnotateParam n)
    (repos : Fin (n + 1) → RepoFiles) : Prop where
  all : ∀ i ∈ param.repoIdxList, annotateFound io param (repos i) = true →
    Annotated io param (repos i) (repos i)
  failed : (∃ i ∈ param.repoIdxList, annotateFailed io param i (repos i) = true) ∨
    ∀ i ∈ param.repoIdxList, annotateFound io param (repos i) = false

variable {repoIdx : Fin (n + 1)} {repo : RepoFiles}

/-- **A repository whose own list is saved is annotated.** -/
theorem annotated_putInfo {bytes : Bytes}
    (h : annotateBytes io param repoIdx repo = some bytes) :
    Annotated io param repo (repo.putInfo bytes) := by
  unfold annotateBytes annotateResult at h
  cases hload : repo.infoBackupLoadFileReconstruct io with
  | error e => rw [hload] at h; cases h
  | ok info =>
    rw [hload] at h
    dsimp only at h
    split at h
    · rename_i hlabel
      have hlist := annotatedList_set hlabel (distinct_reconstruct hload) param.annotation
      cases hsave : io.infoBackupSave repoIdx repo.cipherPass
          (infoBackupDataAnnotationSet info param.set param.annotation) with
      | error e => rw [hsave] at h; cases h
      | ok saved =>
        rw [hsave] at h
        rw [Option.some.inj h] at hsave
        exact ⟨⟨rfl, rfl, rfl⟩, info, _, hload, hlist, repoIdx, bytes, hsave, rfl, rfl⟩
    · cases h

theorem annotateBytes_eq_none_iff
    (h : annotateFound io param repo = true) :
    annotateBytes io param repoIdx repo = none ↔ annotateFailed io param repoIdx repo = true := by
  unfold annotateFound at h
  unfold annotateBytes annotateFailed annotateResult
  cases hload : repo.infoBackupLoadFileReconstruct io with
  | error e => exact iff_of_true rfl rfl
  | ok info =>
    rw [hload] at h
    dsimp only at h ⊢
    rw [if_pos h]
    cases io.infoBackupSave repoIdx repo.cipherPass
        (infoBackupDataAnnotationSet info param.set param.annotation) with
    | error e => exact iff_of_true rfl rfl
    | ok saved => exact iff_of_false nofun nofun

theorem annotateBytes_notFound
    (h : annotateFound io param repo = false) : annotateBytes io param repoIdx repo = none := by
  unfold annotateFound at h
  unfold annotateBytes annotateResult
  cases hload : repo.infoBackupLoadFileReconstruct io with
  | error e => rfl
  | ok info =>
    rw [hload] at h
    dsimp only at h ⊢
    rw [h]
    rfl

/-- What the default repository holds after a run. -/
theorem annotateLast_repoIdxList (repos : Fin (n + 1) → RepoFiles) :
    annotateLast io param repos param.repoIdxList =
      (annotateLast io param repos param.others).or
        (annotateBytes io param param.repoIdxDefault (repos param.repoIdxDefault)) := by
  unfold annotateLast
  rw [repoIdxList_eq, filterMap_cons]
  cases annotateBytes io param param.repoIdxDefault (repos param.repoIdxDefault) with
  | none => exact Option.or_none.symm
  | some bytes =>
    dsimp only
    rw [← singleton_append, getLast?_append]
    rfl

/-- The repositories after a run, and whether it throws. -/
theorem cmdAnnotate_valid (io : InfoBackupIo) (hlabel : backupRegExp backupAllRegExp param.set = true)
    (repos : Fin (n + 1) → RepoFiles) :
    (cmdAnnotate io param repos).1 = Function.update repos param.repoIdxDefault
        ((repos param.repoIdxDefault).putInfoIf (annotateLast io param repos param.repoIdxList)) ∧
      ((∃ e, (cmdAnnotate io param repos).2 = .error e) ↔
        (∃ i ∈ param.repoIdxList, annotateFailed io param i (repos i) = true) ∨
          ∀ i ∈ param.repoIdxList, annotateFound io param (repos i) = false) := by
  unfold cmdAnnotate
  rw [if_pos hlabel, foldl_repoIdxList]
  refine ⟨rfl, ?_⟩
  dsimp only
  have hfailed : 0 < param.repoIdxList.countP (fun i => annotateFailed io param i (repos i)) ↔
      ∃ i ∈ param.repoIdxList, annotateFailed io param i (repos i) = true := countP_pos_iff
  have hfound : param.repoIdxList.countP (fun i => annotateFound io param (repos i)) = 0 ↔
      ∀ i ∈ param.repoIdxList, annotateFound io param (repos i) = false := by
    rw [countP_eq_zero]
    simp only [Bool.not_eq_true]
  rw [← hfailed, ← hfound]
  split
  · rename_i hpos
    exact iff_of_true ⟨_, rfl⟩ (.inl hpos)
  · rename_i hpos
    split
    · rename_i hzero
      exact iff_of_true ⟨_, rfl⟩ (.inr hzero)
    · rename_i hzero
      exact iff_of_false nofun (not_or.mpr ⟨hpos, hzero⟩)

/-- **A list in place**: a run with a valid label touches only what it names
if and only if no list goes to another repository. -/
theorem cmdAnnotate_valid_iff (hlabel : backupRegExp backupAllRegExp param.set = true)
    (repos : Fin (n + 1) → RepoFiles) :
    AnnotateFrame io param repos (cmdAnnotate io param repos).1 (cmdAnnotate io param repos).2 ↔
      AnnotateInPlace io param repos := by
  obtain ⟨hrepos, hthrows⟩ := cmdAnnotate_valid io hlabel repos
  rw [annotateLast_repoIdxList] at hrepos
  rw [hrepos]
  have hmem : param.repoIdxDefault ∈ param.repoIdxList := by
    rw [repoIdxList_eq]
    exact mem_cons_self
  have hother {i : Fin (n + 1)} (hi : i ≠ param.repoIdxDefault) (repo : RepoFiles) :
      Function.update repos param.repoIdxDefault repo i = repos i := Function.update_of_ne hi _ _
  have hself (repo : RepoFiles) :
      Function.update repos param.repoIdxDefault repo param.repoIdxDefault = repo :=
    Function.update_self _ _ _
  constructor
  · rintro ⟨hannotated, hunchanged, -⟩
    refine ⟨fun i hi hfound => ?_, fun hnone hfound hfailed => ?_, fun bytes hbytes => ?_⟩
    · have h := hannotated i (mem_others.mp hi).1 hfound
      rw [hother (mem_others.mp hi).2] at h
      exact h
    · have h := hannotated _ hmem hfound
      rw [hself, hnone, Option.none_or, (annotateBytes_eq_none_iff hfound).mpr hfailed] at h
      exact h
    · by_cases hfound : annotateFound io param (repos param.repoIdxDefault) = true
      · rw [if_pos hfound]
        have h := hannotated _ hmem hfound
        rw [hself, hbytes, Option.some_or] at h
        exact h
      · rw [if_neg hfound]
        have h := hunchanged _ (.inr (Bool.not_eq_true _ |>.mp hfound))
        rw [hself, hbytes, Option.some_or] at h
        exact h
  · rintro ⟨hothers, hkept, hput⟩
    refine ⟨fun i hi hfound => ?_, fun i hi => ?_, hthrows⟩
    · by_cases hdefault : i = param.repoIdxDefault
      · rw [hdefault] at hfound ⊢
        rw [hself]
        cases hlast : annotateLast io param repos param.others with
        | some bytes =>
          have h := hput bytes hlast
          rw [if_pos hfound] at h
          exact h
        | none =>
          rw [Option.none_or]
          cases hbytes : annotateBytes io param param.repoIdxDefault
              (repos param.repoIdxDefault) with
          | some bytes => exact annotated_putInfo hbytes
          | none => exact hkept hlast hfound ((annotateBytes_eq_none_iff hfound).mp hbytes)
      · rw [hother hdefault]
        exact hothers i (mem_others.mpr ⟨hi, hdefault⟩) hfound
    · by_cases hdefault : i = param.repoIdxDefault
      · rw [hdefault] at hi ⊢
        have hfound := hi.resolve_left (fun hnotMem => hnotMem hmem)
        rw [hself]
        cases hlast : annotateLast io param repos param.others with
        | some bytes =>
          have h := hput bytes hlast
          rw [if_neg (Bool.not_eq_true _ |>.mpr hfound)] at h
          exact h
        | none =>
          rw [Option.none_or, annotateBytes_notFound hfound]
          rfl
      · exact hother hdefault _

/-- Nothing is done for a label that is not valid. -/
theorem cmdAnnotate_refused_iff (hlabel : backupRegExp backupAllRegExp param.set = false)
    (repos : Fin (n + 1) → RepoFiles) :
    AnnotateFrame io param repos (cmdAnnotate io param repos).1 (cmdAnnotate io param repos).2 ↔
      AnnotateRefused io param repos := by
  unfold cmdAnnotate
  rw [if_neg (Bool.not_eq_true _ |>.mpr hlabel)]
  constructor
  · rintro ⟨hannotated, -, hthrows⟩
    exact ⟨hannotated, hthrows.mp ⟨_, rfl⟩⟩
  · rintro ⟨hall, hfailed⟩
    exact ⟨hall, fun _ _ => rfl, iff_of_true ⟨_, rfl⟩ hfailed⟩

end Run

def annotateLabel : Str := "20240101-000000F".toList

def annotateList (label : Str) : InfoBackupLoaded where
  infoPg := { history := [], historyCurrent := 0 }
  backup := [.plain label .full none none]
  updated := false
  cipherPass := none

/-- The list with the label after it was annotated. -/
def annotateListSet : InfoBackupLoaded :=
  infoBackupDataAnnotationSet (annotateList annotateLabel) annotateLabel
    [("key".toList, "value".toList)]

/-- Files of one byte: 0 is a list with another label, 1 is a list with the
label, and 2 is that list with an annotation. -/
def annotateIoSample : InfoBackupIo where
  infoBackupNewLoad := fun _ bytes =>
    if bytes = [0] then .ok (annotateList "20231231-000000F".toList)
    else if bytes = [1] then .ok (annotateList annotateLabel)
    else if bytes = [2] then .ok annotateListSet
    else .error ⟨.formatError, "invalid".toList⟩
  infoBackupSave := fun _ _ info =>
    if info = annotateListSet then .ok [2]
    else if info.backup = (annotateList annotateLabel).backup then .ok [1]
    else .ok [0]
  manifestNewLoad := fun _ _ =>
    .error ⟨.formatError, "invalid".toList⟩
  infoBackup_distinct := by
    intro pass bytes info h
    have hnone (label : Str) : AnnotationsDistinct (annotateList label).backup := by
      intro b hb kv hkv
      rw [mem_singleton.mp hb] at hkv
      cases hkv
    split_ifs at h
    · cases h
      exact hnone _
    · cases h
      exact hnone _
    · cases h
      intro b hb kv hkv
      rw [mem_singleton.mp hb] at hkv
      rw [← Option.some.inj hkv]
      exact nodup_singleton _
  manifest_distinct := fun h => absurd h nofun

/-- A repository that holds a byte twice, with the manifest of its backup. -/
def annotateRepoSample (label : Str) (byte : UInt8) : RepoFiles where
  path := "/repo/backup/demo".toList
  cipherPass := none
  backupInfo := some [byte]
  backupInfoCopy := some [byte]
  paths := [{ label := label, manifest := some [], manifestCopy := some [] }]

/-- The second repository has the label. -/
def annotateReposSample : Fin 2 → RepoFiles
  | 0 => annotateRepoSample "20231231-000000F".toList 0
  | 1 => annotateRepoSample annotateLabel 1

/-- No repository is selected. -/
def annotateParamSample : AnnotateParam 1 where
  repo := none
  set := annotateLabel
  annotation := [("key".toList, "value".toList)]

end PgxBackup
