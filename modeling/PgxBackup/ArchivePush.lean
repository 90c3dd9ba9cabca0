import PgxBackup.ExpireArchive

/-!
# Repositories of archive-push

`archivePushCheck` loads the archive info of every repository. A repository
that cannot be loaded, or that is for another cluster than `pg_control` or the
other repositories, is left out with an error. Without access to `pg_control`
the first repository is what the others are compared with.

What it takes to be compared is the position of a repository and not whether
one was loaded before it, so all are left out if the first one cannot be loaded.
-/

namespace PgxBackup

open List

/-- `InfoArchive`. -/
structure InfoArchive where
  infoPg : InfoPg
  cipherPass : Option Str
  deriving DecidableEq

/-- A repository that is configured. -/
structure ArchivePushRepo where
  groupName : Str
  cipherType : Str
  /-- What loading the archive info comes to. -/
  info : Except Error InfoArchive
  deriving DecidableEq

/-- `ArchivePushFileRepoData`. -/
structure ArchivePushFileRepoData where
  repoIdx : ℕ
  archiveId : Str
  cipherType : Str
  cipherPass : Option Str
  deriving DecidableEq

/-- `ArchivePushCheckResult`. -/
structure ArchivePushCheckResult where
  pgVersion : ℕ
  pgSystemId : ℕ
  /-- Data for each repo. -/
  repoList : List ArchivePushFileRepoData
  /-- Errors while checking repos. -/
  errorList : List Str
  deriving DecidableEq

/-- `PgControl`, as far as it is compared. -/
structure PgControl where
  version : ℕ
  systemId : ℕ

/-- The version and system id of a stanza or a cluster as text. -/
def pgIdText (version systemId : ℕ) : Str :=
  pgVersionToStr version ++ ", system-id ".toList ++ Nat.toDigits 10 systemId

/-- The message when a stanza is for another cluster. -/
def archivePushMismatch (pgPathSet : Bool) (groupNameFirst groupName : Str)
    (result : ArchivePushCheckResult) (archiveInfo : InfoPgData) : Str :=
  (if pgPathSet then "PostgreSQL".toList else groupNameFirst ++ " stanza".toList)
    ++ " version ".toList ++ pgIdText result.pgVersion result.pgSystemId
    ++ " do not match ".toList ++ groupName ++ " stanza version ".toList
    ++ pgIdText archiveInfo.version archiveInfo.systemId
    ++ "\nHINT: are you archiving to the correct stanza?".toList

/-- What is tried for a repository. -/
def archivePushRepo (pgPathSet : Bool) (groupNameFirst : Str) (repoIdx : ℕ) (repo : ArchivePushRepo)
    (result : ArchivePushCheckResult) : Except Error ArchivePushCheckResult := do
  let info ← repo.info
  let archiveInfo ← infoPgDataCurrent info.infoPg
  -- ensure that stanza version and system identifier match pg_control or the other repos
  if (pgPathSet || repoIdx > 0) ∧
      (result.pgVersion ≠ archiveInfo.version ∨ result.pgSystemId ≠ archiveInfo.systemId) then
    .error ⟨.archiveMismatchError,
      archivePushMismatch pgPathSet groupNameFirst repo.groupName result archiveInfo⟩
  else
    .ok
      { result with
        pgVersion := archiveInfo.version
        pgSystemId := archiveInfo.systemId
        repoList := result.repoList
          ++ [⟨repoIdx, infoPgArchiveId archiveInfo, repo.cipherType, info.cipherPass⟩] }

/-- The error of a repository as text. -/
def archivePushError (groupName : Str) (error : Error) : Str :=
  groupName ++ ": [".toList ++ errorTypeName error.type ++ "] ".toList ++ error.message

/-- The repositories from a position on. -/
def archivePushRepos (pgPathSet : Bool) (groupNameFirst : Str) :
    ℕ → List ArchivePushRepo → ArchivePushCheckResult → ArchivePushCheckResult
  | _, [], result => result
  | repoIdx, repo :: repos, result =>
    archivePushRepos pgPathSet groupNameFirst (repoIdx + 1) repos
      (match archivePushRepo pgPathSet groupNameFirst repoIdx repo result with
      | .ok result => result
      | .error error =>
        { result with errorList := result.errorList ++ [archivePushError repo.groupName error] })

/-- The result before any repository. -/
def archivePushCheckNew (pgControl : Option PgControl) : ArchivePushCheckResult :=
  ⟨(pgControl.map PgControl.version).getD 0, (pgControl.map PgControl.systemId).getD 0, [], []⟩

/-- `archivePushCheck`, with `pg_control` if the pg path is set. -/
def archivePushCheck (pgControl : Option PgControl) (repos : List ArchivePushRepo) :
    Except Error ArchivePushCheckResult :=
  let result := archivePushRepos pgControl.isSome ((repos.head?.map ArchivePushRepo.groupName).getD [])
    0 repos (archivePushCheckNew pgControl)
  if result.repoList = [] then
    .error ⟨.repoInvalidError, "unable to find a valid repository:\n".toList
      ++ intercalate ['\n'] result.errorList⟩
  else .ok result

/-! ## Consistent repositories -/

namespace ArchivePushRepo

/-- The version and system id of a repository that can be loaded. -/
def cluster (repo : ArchivePushRepo) : Option (ℕ × ℕ) :=
  match repo.info with
  | .ok info => (infoPgDataCurrent info.infoPg).toOption.map fun pg => (pg.version, pg.systemId)
  | .error _ => none

/-- What is to be kept of a repository, if it is for the cluster. -/
def keep (reference : Option (ℕ × ℕ)) (repo : ArchivePushRepo) (repoIdx : ℕ) :
    Option ArchivePushFileRepoData :=
  match repo.info with
  | .ok info =>
    match infoPgDataCurrent info.infoPg with
    | .ok pg =>
      if reference = some (pg.version, pg.systemId) then
        some ⟨repoIdx, infoPgArchiveId pg, repo.cipherType, info.cipherPass⟩
      else none
    | .error _ => none
  | .error _ => none

variable {reference : Option (ℕ × ℕ)} {repo : ArchivePushRepo}

theorem keep_isSome_iff {repoIdx : ℕ} :
    (repo.keep reference repoIdx).isSome ↔ ∃ pg, repo.cluster = some pg ∧ reference = some pg := by
  unfold keep cluster
  cases repo.info with
  | error e => simp
  | ok info =>
    cases hcurrent : infoPgDataCurrent info.infoPg with
    | error e => simp [hcurrent, Except.toOption]
    | ok pg => by_cases h : reference = some (pg.version, pg.systemId) <;>
        simp [h, hcurrent, Except.toOption]

/-- Whether a repository is kept does not depend on its position. -/
theorem keep_isNone_eq {repoIdx repoIdx' : ℕ} :
    (repo.keep reference repoIdx).isNone = (repo.keep reference repoIdx').isNone := by
  rw [← Option.not_isSome, ← Option.not_isSome, Bool.eq_iff_iff]
  simp only [Bool.not_eq_true', ← Bool.not_eq_true, keep_isSome_iff]

theorem keep_repoIdx {repoIdx : ℕ}
    {data : ArchivePushFileRepoData} (h : repo.keep reference repoIdx = some data) :
    data.repoIdx = repoIdx := by
  unfold keep at h
  split at h
  · split at h
    · split at h
      · rw [← Option.some.inj h]
      · cases h
    · cases h
  · cases h

end ArchivePushRepo

/-- What is to be kept of the repositories from a position on. -/
def archivePushKept (reference : Option (ℕ × ℕ)) (repos : List ArchivePushRepo) (repoIdx : ℕ) :
    List ArchivePushFileRepoData :=
  (repos.zipIdx repoIdx).filterMap fun p => p.1.keep reference p.2

/-- One error for each repository that is not for the cluster, in order. -/
def ArchivePushErrors (reference : Option (ℕ × ℕ)) (repos : List ArchivePushRepo)
    (errorList : List Str) : Prop :=
  List.Forall₂ (fun repo text => ∃ error, text = archivePushError repo.groupName error)
    (repos.filter fun repo => (repo.keep reference 0).isNone) errorList

variable {repos : List ArchivePushRepo} {repo : ArchivePushRepo} {repoIdx : ℕ}
  {pgControl : Option PgControl}

theorem ArchivePushErrors.cons_kept {reference : Option (ℕ × ℕ)}
    {errorList : List Str} (h : ArchivePushErrors reference repos errorList)
    {data : ArchivePushFileRepoData} (hkeep : repo.keep reference repoIdx = some data) :
    ArchivePushErrors reference (repo :: repos) errorList := by
  have hsome : (repo.keep reference 0).isNone = false := by
    rw [@ArchivePushRepo.keep_isNone_eq _ _ 0 repoIdx, hkeep]
    rfl
  simpa [ArchivePushErrors, hsome] using h

theorem ArchivePushErrors.cons_error {reference : Option (ℕ × ℕ)}
    {errorList : List Str} (h : ArchivePushErrors reference repos errorList)
    (hkeep : repo.keep reference repoIdx = none) (error : Error) :
    ArchivePushErrors reference (repo :: repos)
      (archivePushError repo.groupName error :: errorList) := by
  have hnone : (repo.keep reference 0).isNone = true := by
    rw [@ArchivePushRepo.keep_isNone_eq _ _ 0 repoIdx, hkeep]
    rfl
  have hfilter : (repo :: repos).filter (fun repo => (repo.keep reference 0).isNone)
      = repo :: repos.filter fun repo => (repo.keep reference 0).isNone :=
    filter_cons_of_pos hnone
  unfold ArchivePushErrors
  rw [hfilter]
  exact List.Forall₂.cons ⟨error, rfl⟩ h

/-- What all repositories are to be for: the cluster of `pg_control`, or of the
first repository that can be loaded. -/
def archivePushReference (pgControl : Option PgControl) (repos : List ArchivePushRepo) :
    Option (ℕ × ℕ) :=
  match pgControl with
  | some control => some (control.version, control.systemId)
  | none => repos.findSome? ArchivePushRepo.cluster

/-- Every consistent repository is kept and every other one has an error. It is
an error if there is nothing to keep. -/
def ArchivePushConsistent (pgControl : Option PgControl) (repos : List ArchivePushRepo) : Prop :=
  match archivePushCheck pgControl repos with
  | .ok result =>
    result.repoList = archivePushKept (archivePushReference pgControl repos) repos 0
      ∧ result.repoList ≠ []
      ∧ ArchivePushErrors (archivePushReference pgControl repos) repos result.errorList
  | .error error =>
    archivePushKept (archivePushReference pgControl repos) repos 0 = []
      ∧ ∃ errorList, ArchivePushErrors (archivePushReference pgControl repos) repos errorList
        ∧ error = ⟨.repoInvalidError, "unable to find a valid repository:\n".toList
          ++ intercalate ['\n'] errorList⟩

/-- A repository that is compared is kept if it is for the cluster so far, and
has an error if it is not. -/
theorem archivePushRepo_compared {pgPathSet : Bool} (groupNameFirst : Str)
    (repo : ArchivePushRepo) (result : ArchivePushCheckResult)
    (hcompare : pgPathSet = true ∨ 0 < repoIdx) :
    match repo.keep (some (result.pgVersion, result.pgSystemId)) repoIdx with
    | some data => archivePushRepo pgPathSet groupNameFirst repoIdx repo result
        = .ok { result with repoList := result.repoList ++ [data] }
    | none => ∃ error, archivePushRepo pgPathSet groupNameFirst repoIdx repo result = .error error := by
  have hcompare : (pgPathSet || decide (repoIdx > 0)) = true := by simpa using hcompare
  unfold archivePushRepo ArchivePushRepo.keep
  cases repo.info with
  | error e => exact ⟨e, rfl⟩
  | ok info =>
    simp only [bind, Except.bind]
    cases infoPgDataCurrent info.infoPg with
    | error e => exact ⟨e, rfl⟩
    | ok pg =>
      simp only [hcompare, true_and]
      by_cases heq : result.pgVersion = pg.version ∧ result.pgSystemId = pg.systemId
      · simp [heq.1, heq.2]
      · have hne : result.pgVersion ≠ pg.version ∨ result.pgSystemId ≠ pg.systemId := by tauto
        simp only [Option.some.injEq, Prod.mk.injEq, heq, if_false, hne, if_true]
        exact ⟨_, rfl⟩

/-- What all repositories are compared with: without `pg_control` the first
repository if it can be loaded, and otherwise what the result starts with. -/
def archivePushCompared (pgControl : Option PgControl) (repos : List ArchivePushRepo) : ℕ × ℕ :=
  match pgControl with
  | some control => (control.version, control.systemId)
  | none => ((repos.head?.bind ArchivePushRepo.cluster).getD (0, 0))

/-- Repositories that are all compared are kept or have an error. -/
theorem archivePushRepos_compared (pgPathSet : Bool) (groupNameFirst : Str)
    (repos : List ArchivePushRepo) : ∀ (repoIdx : ℕ) (result : ArchivePushCheckResult),
    pgPathSet = true ∨ 0 < repoIdx →
    ∃ errorList, archivePushRepos pgPathSet groupNameFirst repoIdx repos result
        = { result with
            repoList := result.repoList
              ++ archivePushKept (some (result.pgVersion, result.pgSystemId)) repos repoIdx
            errorList := result.errorList ++ errorList }
      ∧ ArchivePushErrors (some (result.pgVersion, result.pgSystemId)) repos errorList := by
  induction repos with
  | nil =>
    intro repoIdx result _
    refine ⟨[], ?_, List.Forall₂.nil⟩
    simp [archivePushRepos, archivePushKept]
  | cons repo repos ih =>
    intro repoIdx result hcompare
    have hstep := archivePushRepo_compared groupNameFirst repo result hcompare
    cases hkeep : repo.keep (some (result.pgVersion, result.pgSystemId)) repoIdx with
    | some data =>
      rw [hkeep] at hstep
      have ⟨errorList, hrepos, herrors⟩ := ih (repoIdx + 1)
        { result with repoList := result.repoList ++ [data] } (Or.inr (Nat.succ_pos _))
      refine ⟨errorList, ?_, ?_⟩
      · simp only [archivePushRepos, hstep]
        rw [hrepos]
        simp [archivePushKept, hkeep]
      · exact herrors.cons_kept hkeep
    | none =>
      rw [hkeep] at hstep
      have ⟨error, hstep⟩ := hstep
      have ⟨errorList, hrepos, herrors⟩ := ih (repoIdx + 1)
        { result with errorList := result.errorList ++ [archivePushError repo.groupName error] }
        (Or.inr (Nat.succ_pos _))
      refine ⟨archivePushError repo.groupName error :: errorList, ?_, ?_⟩
      · simp only [archivePushRepos, hstep]
        rw [hrepos]
        simp [archivePushKept, hkeep]
      · exact herrors.cons_error hkeep error

/-- The first repository is kept without being compared, if it can be loaded. -/
theorem archivePushRepo_first (groupNameFirst : Str) (repo : ArchivePushRepo)
    (result : ArchivePushCheckResult) :
    match repo.cluster with
    | some pg => ∃ data, repo.keep (some pg) 0 = some data
        ∧ archivePushRepo false groupNameFirst 0 repo result
          = .ok { result with
                  pgVersion := pg.1, pgSystemId := pg.2, repoList := result.repoList ++ [data] }
    | none => ∃ error, archivePushRepo false groupNameFirst 0 repo result = .error error := by
  unfold archivePushRepo ArchivePushRepo.keep ArchivePushRepo.cluster
  cases repo.info with
  | error e => exact ⟨e, rfl⟩
  | ok info =>
    simp only [bind, Except.bind]
    cases infoPgDataCurrent info.infoPg with
    | error e => exact ⟨e, rfl⟩
    | ok pg => simp [Except.toOption]

/-- Every repository is kept or has an error, for what they are compared with. -/
theorem archivePushRepos_all (pgControl : Option PgControl) (groupNameFirst : Str)
    (repos : List ArchivePushRepo) :
    let result := archivePushRepos pgControl.isSome groupNameFirst 0 repos
      (archivePushCheckNew pgControl)
    result.repoList = archivePushKept (some (archivePushCompared pgControl repos)) repos 0
      ∧ ArchivePushErrors (some (archivePushCompared pgControl repos)) repos result.errorList := by
  intro result
  cases pgControl with
  | some control =>
    have ⟨errorList, hrepos, herrors⟩ := archivePushRepos_compared true groupNameFirst repos 0
      (archivePushCheckNew (some control)) (Or.inl rfl)
    have hresult : result = _ := hrepos
    rw [hresult]
    exact ⟨rfl, herrors⟩
  | none =>
    cases repos with
    | nil => exact ⟨rfl, List.Forall₂.nil⟩
    | cons repo repos =>
      have hstep := archivePushRepo_first groupNameFirst repo (archivePushCheckNew none)
      cases hcluster : repo.cluster with
      | some pg =>
        rw [hcluster] at hstep
        have ⟨data, hkeep, hstep⟩ := hstep
        have hcompared : archivePushCompared none (repo :: repos) = pg := by
          simp [archivePushCompared, hcluster]
        have ⟨errorList, hrepos, herrors⟩ := archivePushRepos_compared false groupNameFirst repos 1
          ⟨pg.1, pg.2, [data], []⟩ (Or.inr Nat.one_pos)
        have hresult : result = ⟨pg.1, pg.2, [data] ++ archivePushKept (some pg) repos 1, errorList⟩ := by
          show archivePushRepos false groupNameFirst 0 (repo :: repos) _ = _
          simp only [archivePushRepos, hstep]
          exact hrepos
        rw [hresult, hcompared]
        refine ⟨?_, ?_⟩
        · simp [archivePushKept, hkeep]
        · exact herrors.cons_kept hkeep
      | none =>
        rw [hcluster] at hstep
        have ⟨error, hstep⟩ := hstep
        have hcompared : archivePushCompared none (repo :: repos) = (0, 0) := by
          simp [archivePushCompared, hcluster]
        have hkeep : repo.keep (some (0, 0)) 0 = none := by
          have := @ArchivePushRepo.keep_isSome_iff (some (0, 0)) repo 0
          simpa [hcluster] using this
        have ⟨errorList, hrepos, herrors⟩ := archivePushRepos_compared false groupNameFirst repos 1
          ⟨0, 0, [], [archivePushError repo.groupName error]⟩ (Or.inr Nat.one_pos)
        have hresult : result = ⟨0, 0, archivePushKept (some (0, 0)) repos 1,
            archivePushError repo.groupName error :: errorList⟩ := by
          show archivePushRepos false groupNameFirst 0 (repo :: repos) _ = _
          simp only [archivePushRepos, hstep]
          exact hrepos
        rw [hresult, hcompared]
        refine ⟨?_, ?_⟩
        · simp [archivePushKept, hkeep]
        · exact herrors.cons_error hkeep error

/-- The repositories are consistent if what they are compared with makes no
difference from what they are to be for. -/
theorem archivePushConsistent_of_agree
    (h : ∀ repo ∈ repos, ∀ repoIdx, repo.keep (some (archivePushCompared pgControl repos)) repoIdx
      = repo.keep (archivePushReference pgControl repos) repoIdx) :
    ArchivePushConsistent pgControl repos := by
  have hkept : archivePushKept (some (archivePushCompared pgControl repos)) repos 0
      = archivePushKept (archivePushReference pgControl repos) repos 0 := by
    refine filterMap_congr fun p hp => h p.1 ?_ p.2
    exact fst_mem_of_mem_zipIdx hp
  have herrors : ∀ errorList, ArchivePushErrors (some (archivePushCompared pgControl repos)) repos errorList
      → ArchivePushErrors (archivePushReference pgControl repos) repos errorList := by
    intro errorList herrors
    have hfilter := filter_congr fun repo hrepo => congrArg Option.isNone (h repo hrepo 0)
    unfold ArchivePushErrors at herrors ⊢
    rwa [← hfilter]
  have ⟨hlist, hall⟩ := archivePushRepos_all pgControl
    ((repos.head?.map ArchivePushRepo.groupName).getD []) repos
  unfold ArchivePushConsistent archivePushCheck
  by_cases hempty : (archivePushRepos pgControl.isSome
      ((repos.head?.map ArchivePushRepo.groupName).getD []) 0 repos
      (archivePushCheckNew pgControl)).repoList = []
  · simp only [hempty, if_true]
    refine ⟨?_, _, herrors _ hall, rfl⟩
    rw [← hkept, ← hlist]
    exact hempty
  · simp only [hempty, if_false]
    exact ⟨hlist.trans hkept, hempty, herrors _ hall⟩

/-- If the repositories are consistent then the ones that are for what they are
compared with are the ones that are to be kept. -/
theorem ArchivePushConsistent.kept (h : ArchivePushConsistent pgControl repos) :
    archivePushKept (some (archivePushCompared pgControl repos)) repos 0
      = archivePushKept (archivePushReference pgControl repos) repos 0 := by
  have ⟨hlist, _⟩ := archivePushRepos_all pgControl
    ((repos.head?.map ArchivePushRepo.groupName).getD []) repos
  unfold ArchivePushConsistent archivePushCheck at h
  by_cases hempty : (archivePushRepos pgControl.isSome
      ((repos.head?.map ArchivePushRepo.groupName).getD []) 0 repos
      (archivePushCheckNew pgControl)).repoList = []
  · simp only [hempty, if_true] at h
    rw [← hlist, h.1]
    exact hempty
  · simp only [hempty, if_false] at h
    rw [← hlist]
    exact h.1

/-- Two clusters that keep the same repositories are the same, if one of the
repositories is for the second. -/
theorem archivePushKept_injective {pg pg' : ℕ × ℕ}
    (h : archivePushKept (some pg) repos 0 = archivePushKept (some pg') repos 0)
    (hrepo : repo ∈ repos) (hcluster : repo.cluster = some pg') : pg = pg' := by
  have ⟨repoIdx, hlt, hget⟩ := getElem_of_mem hrepo
  have hkeep : (repo.keep (some pg') repoIdx).isSome :=
    ArchivePushRepo.keep_isSome_iff.mpr ⟨pg', hcluster, rfl⟩
  have ⟨data, hdata⟩ := Option.isSome_iff_exists.mp hkeep
  have hmem : data ∈ archivePushKept (some pg') repos 0 := by
    refine mem_filterMap.mpr ⟨(repo, repoIdx), ?_, hdata⟩
    rw [mem_zipIdx_iff_getElem?, ← hget]
    exact getElem?_eq_getElem hlt
  -- the same data is kept for the first cluster, and its position says from which repository
  rw [← h] at hmem
  have ⟨p, hp, hkept⟩ := mem_filterMap.mp hmem
  have hidx : p.2 = repoIdx := by
    rw [← ArchivePushRepo.keep_repoIdx hkept, ArchivePushRepo.keep_repoIdx hdata]
  have hfst : p.1 = repo := by
    rw [mem_zipIdx_iff_getElem?, hidx, getElem?_eq_getElem hlt, hget] at hp
    exact (Option.some.inj hp).symm
  have ⟨pg'', hcluster', heq⟩ := ArchivePushRepo.keep_isSome_iff.mp (Option.isSome_of_eq_some hkept)
  rw [hfst, hcluster] at hcluster'
  rw [Option.some.inj heq, ← Option.some.inj hcluster']

/-- What decides is whether the first repository can be loaded: `pg_control` is
there, or the first repository can be loaded, or none can, or the first that can
is for what the result starts with. -/
def ArchivePushFirstLoaded (pgControl : Option PgControl) (repos : List ArchivePushRepo) : Prop :=
  pgControl.isSome ∨ (∃ repo, repos.head? = some repo ∧ repo.cluster.isSome)
    ∨ (∀ repo ∈ repos, repo.cluster = none)
    ∨ repos.findSome? ArchivePushRepo.cluster = some (0, 0)

/-- What the repositories are compared with is then what they are to be for, if
any can be loaded. -/
theorem ArchivePushFirstLoaded.compared (h : ArchivePushFirstLoaded pgControl repos) :
    some (archivePushCompared pgControl repos) = archivePushReference pgControl repos
      ∨ ∀ repo ∈ repos, repo.cluster = none := by
  cases pgControl with
  | some control => exact Or.inl rfl
  | none =>
    cases repos with
    | nil => exact Or.inr fun repo hrepo => absurd hrepo not_mem_nil
    | cons first rest =>
      cases hfirst : first.cluster with
      | some pg =>
        refine Or.inl ?_
        simp [archivePushCompared, archivePushReference, hfirst]
      | none =>
        rcases h with hcontrol | ⟨repo, hhead, hcluster⟩ | hnone | hzero
        · cases hcontrol
        · rw [← Option.some.inj hhead, hfirst] at hcluster
          cases hcluster
        · exact Or.inr hnone
        · refine Or.inl ?_
          unfold archivePushReference
          rw [hzero]
          simp [archivePushCompared, hfirst]

/-- Two repositories of the same cluster, the first of which cannot be loaded. -/
def archivePushSample : List ArchivePushRepo :=
  [⟨"repo1".toList, "none".toList, .error ⟨.fileMissingError, "unable to load info".toList⟩⟩,
    ⟨"repo2".toList, "none".toList, .ok ⟨⟨[⟨1, 6, 0, 160000, 0⟩], 0⟩, none⟩⟩]

end PgxBackup
