import PgxBackup.ArchiveGetFind

/-!
# One request and many

Looking for many segments at once finds what is found for each of them alone, up
to the first one that is not found. The lists that are kept hold what the
directories hold, and taking the files that begin with a segment from the files
of its path comes to the same as the expression for the segment.
-/

namespace PgxBackup

open List

/-! ## Expressions -/

theorem IsWalSegmentName.not_partial {walSegment : Str} (h : IsWalSegmentName walSegment) :
    walIsPartial walSegment = false := by
  rw [← Bool.not_eq_true]
  intro hends
  have ⟨name, heq⟩ := strEndsWith_iff.mp hends
  have hdot : '.' ∈ walSegment := by
    rw [heq]
    exact mem_append_right _ (by decide)
  have ⟨i, hi, hdigit⟩ := h.2 _ hdot
  have hdigits : ∀ i < 16, '.' ≠ hexDigit i := by decide
  exact hdigits i hi hdigit

theorem isHexRange_of_hex {s : Str} {size : ℕ} (hlength : s.length = size)
    (hdigits : ∀ c ∈ s, ∃ i < 16, c = hexDigit i) : isHexRange size s = true := by
  have hrange : ∀ i < 16, '0' ≤ hexDigit i ∧ hexDigit i ≤ 'F' := by decide
  unfold isHexRange
  rw [Bool.and_eq_true, decide_eq_true_eq, all_eq_true]
  refine ⟨hlength, fun c hc => ?_⟩
  have ⟨i, hi, heq⟩ := hdigits c hc
  rw [heq, Bool.and_eq_true, decide_eq_true_eq, decide_eq_true_eq]
  exact hrange i hi

theorem IsWalSegmentName.isSegment {walSegment : Str} (h : IsWalSegmentName walSegment) :
    walIsSegment walSegment = true := by
  have htake : walSegment.take 24 = walSegment := take_of_length_le h.1.le
  have hdrop : walSegment.drop 24 = [] := drop_of_length_le h.1.le
  unfold walIsSegment
  rw [htake, hdrop, isHexRange_of_hex h.1 h.2]
  rfl

/-- **The two ways to match a file** are the same. -/
theorem walPathMatch_begins {walSegment : Str} (h : IsWalSegmentName walSegment) (file : Str) :
    (walPathMatch (strSubN walSegment 0 16) file && strBeginsWith file walSegment)
      = walSegmentFindMatch walSegment file := by
  have htake : strSubN walSegment 0 24 = walSegment := take_of_length_le h.1.le
  have hpath : (strSubN walSegment 0 16).length = 16 := by
    show (walSegment.take 16).length = 16
    rw [length_take, h.1]
    rfl
  unfold walSegmentFindMatch strBeginsWith
  rw [htake, h.not_partial]
  by_cases hbegins : walSegment.isPrefixOf file = true
  · have ⟨rest, heq⟩ := isPrefixOf_iff_prefix.mp hbegins
    have hlength := h.1
    have hdrop : (walSegment.drop 16).length = 8 := by rw [length_drop, h.1]
    have hhex : isHexRange 8 ((file.drop 16).take 8) = true := by
      have htail : (file.drop 16).take 8 = walSegment.drop 16 := by
        rw [← heq, drop_append_of_le_length (by omega), take_left' hdrop]
      rw [htail]
      exact isHexRange_of_hex hdrop fun c hc => h.2 c (mem_of_mem_drop hc)
    have hpath' : (strSubN walSegment 0 16).isPrefixOf file = true := by
      rw [List.isPrefixOf_iff_prefix, ← heq]
      exact (List.take_prefix 16 walSegment).trans (prefix_append _ _)
    unfold walPathMatch
    rw [hpath, hbegins, hhex, hpath']
    exact Bool.and_true _
  · rw [Bool.not_eq_true] at hbegins
    rw [hbegins, Bool.and_false, Bool.false_and]

/-! ## Lists that are kept -/

/-- The lists that are kept for an archive are what its paths hold. -/
def ArchiveCached (storage : ArchiveGetStorage) (repoIdx : ℕ) (cacheArchive : ArchiveGetFindCacheArchive) :
    Prop :=
  ∀ cachePath ∈ cacheArchive.pathList, ∃ files,
    storage.list repoIdx cacheArchive.archiveId cachePath.path = .ok files
      ∧ cachePath.fileList = files.filter (walPathMatch cachePath.path)

/-- The lists that are kept for the archives of a repository. -/
def RepoCached (storage : ArchiveGetStorage) (cacheRepo : ArchiveGetFindCacheRepo) : Prop :=
  ∀ cacheArchive ∈ cacheRepo.archiveList, ArchiveCached storage cacheRepo.repoIdx cacheArchive

/-- A repository without its lists and warnings. -/
def ArchiveGetFindCacheRepo.bare (cacheRepo : ArchiveGetFindCacheRepo) : ArchiveGetFindCacheRepo :=
  { cacheRepo with
    archiveList := cacheRepo.archiveList.map fun cacheArchive => ⟨cacheArchive.archiveId, []⟩
    warnList := [] }

/-! ## What is found -/

section Found

variable (storage : ArchiveGetStorage) (walSegment : Str)

/-- The files of a segment in an archive. -/
def archiveFound (cacheRepo : ArchiveGetFindCacheRepo) (archiveId : Str) :
    Except Error (List ArchiveGetFile) :=
  (storage.list cacheRepo.repoIdx archiveId (strSubN walSegment 0 16)).map fun files =>
    (files.filter (walSegmentFindMatch walSegment)).map fun segment =>
      archiveGetFileNew cacheRepo archiveId (strSubN walSegment 0 16 ++ '/' :: segment)

/-- The files in the archives of a repository, up to an error. -/
def archivesFound (cacheRepo : ArchiveGetFindCacheRepo) :
    List ArchiveGetFindCacheArchive → List ArchiveGetFile × Option Error
  | [] => ([], none)
  | cacheArchive :: archiveList =>
    match archiveFound storage walSegment cacheRepo cacheArchive.archiveId with
    | .error error => ([], some error)
    | .ok files => (files ++ (archivesFound cacheRepo archiveList).1, (archivesFound cacheRepo archiveList).2)

/-- The files in the repositories. -/
def reposFound : List ArchiveGetFindCacheRepo → ArchiveGetFindState → ArchiveGetFindState
  | [], state => state
  | cacheRepo :: cacheRepoList, state =>
    let found := archivesFound storage walSegment cacheRepo cacheRepo.archiveList
    reposFound cacheRepoList
      { matchList := state.matchList ++ found.1
        fileWarnList := found.2.elim state.fileWarnList
          (archiveGetErrorAdd storage state.fileWarnList cacheRepo.repoIdx)
        repoErrorTotal := state.repoErrorTotal + found.2.elim 0 fun _ => 1 }

variable {storage walSegment} {single : Bool} {cacheRepo : ArchiveGetFindCacheRepo}

/-- A segment is found in an archive, and the lists stay what the paths hold. -/
theorem archiveGetFindSegment_eq (h : single = true ∨ IsWalSegmentName walSegment) {repoIdx : ℕ}
    {cacheArchive : ArchiveGetFindCacheArchive} (hcached : ArchiveCached storage repoIdx cacheArchive) :
    ∃ cacheArchive', cacheArchive'.archiveId = cacheArchive.archiveId
      ∧ ArchiveCached storage repoIdx cacheArchive'
      ∧ archiveGetFindSegment storage single walSegment repoIdx cacheArchive =
        (storage.list repoIdx cacheArchive.archiveId (strSubN walSegment 0 16)).map fun files =>
          (files.filter (walSegmentFindMatch walSegment), cacheArchive') := by
  unfold archiveGetFindSegment
  cases single with
  | true =>
    refine ⟨cacheArchive, rfl, hcached, ?_⟩
    show (storage.list repoIdx cacheArchive.archiveId _ >>= fun files => _) = _
    cases storage.list repoIdx cacheArchive.archiveId (strSubN walSegment 0 16) with
    | error e => rfl
    | ok files => rfl
  | false =>
    have hname := h.resolve_left Bool.false_ne_true
    have hfilter : ∀ files : List Str,
        (files.filter (walPathMatch (strSubN walSegment 0 16))).filter (strBeginsWith · walSegment)
          = files.filter (walSegmentFindMatch walSegment) := by
      intro files
      rw [filter_filter]
      exact filter_congr fun file _ => (Bool.and_comm _ _).trans (walPathMatch_begins hname file)
    rw [if_neg Bool.false_ne_true]
    cases hfind : cacheArchive.pathList.find? (fun cachePath => cachePath.path = strSubN walSegment 0 16) with
    | some cachePath =>
      have ⟨files, hlist, hfiles⟩ := hcached cachePath (mem_of_find?_eq_some hfind)
      have hpath : cachePath.path = strSubN walSegment 0 16 := by simpa using find?_some hfind
      rw [hpath] at hlist hfiles
      refine ⟨cacheArchive, rfl, hcached, ?_⟩
      rw [hlist]
      show Except.ok (cachePath.fileList.filter _, cacheArchive) = _
      rw [hfiles, hfilter]
      rfl
    | none =>
      cases hlist : storage.list repoIdx cacheArchive.archiveId (strSubN walSegment 0 16) with
      | error e => exact ⟨cacheArchive, rfl, hcached, rfl⟩
      | ok files =>
        refine ⟨{ cacheArchive with
          pathList := cacheArchive.pathList
            ++ [⟨strSubN walSegment 0 16, files.filter (walPathMatch (strSubN walSegment 0 16))⟩] }, rfl, ?_, ?_⟩
        · intro cachePath hmem
          rcases mem_append.mp hmem with hmem | hmem
          · exact hcached cachePath hmem
          · rw [mem_singleton.mp hmem]
            exact ⟨files, hlist, rfl⟩
        · show Except.ok ((files.filter _).filter _, _) = _
          rw [hfilter]
          rfl

section

variable (hsegment : walIsSegment walSegment = true)
  (h : single = true ∨ IsWalSegmentName walSegment)
include hsegment h

theorem archiveGetFindArchive_eq {cacheArchive : ArchiveGetFindCacheArchive}
    (hcached : ArchiveCached storage cacheRepo.repoIdx cacheArchive) :
    ∃ cacheArchive', cacheArchive'.archiveId = cacheArchive.archiveId
      ∧ ArchiveCached storage cacheRepo.repoIdx cacheArchive'
      ∧ archiveGetFindArchive storage single walSegment cacheRepo cacheArchive =
        (archiveFound storage walSegment cacheRepo cacheArchive.archiveId).map (·, cacheArchive') := by
  have ⟨cacheArchive', hid, hcached', heq⟩ := @archiveGetFindSegment_eq storage walSegment single h _ _ hcached
  refine ⟨cacheArchive', hid, hcached', ?_⟩
  unfold archiveGetFindArchive archiveFound
  rw [hsegment, heq]
  cases storage.list cacheRepo.repoIdx cacheArchive.archiveId (strSubN walSegment 0 16) with
  | error e => rfl
  | ok files =>
    show Except.ok (_ , cacheArchive') = _
    rw [hid]
    rfl

theorem archiveGetFindArchives_eq (archiveList : List ArchiveGetFindCacheArchive) :
    (∀ cacheArchive ∈ archiveList, ArchiveCached storage cacheRepo.repoIdx cacheArchive) →
    ∃ archiveList', archiveList'.map ArchiveGetFindCacheArchive.archiveId
        = archiveList.map ArchiveGetFindCacheArchive.archiveId
      ∧ (∀ cacheArchive ∈ archiveList', ArchiveCached storage cacheRepo.repoIdx cacheArchive)
      ∧ archiveGetFindArchives storage single walSegment cacheRepo archiveList =
        ((archivesFound storage walSegment cacheRepo archiveList).1, archiveList',
          (archivesFound storage walSegment cacheRepo archiveList).2) := by
  induction archiveList with
  | nil => exact fun _ => ⟨[], rfl, nofun, rfl⟩
  | cons cacheArchive archiveList ih =>
    intro hcached
    have ⟨hhead, htail⟩ := forall_mem_cons.mp hcached
    have ⟨cacheArchive', hid, hcached', heq⟩ :=
      @archiveGetFindArchive_eq storage walSegment single cacheRepo hsegment h _ hhead
    have ⟨archiveList', hids, hcacheds, heqs⟩ := ih htail
    unfold archiveGetFindArchives archivesFound
    rw [heq, heqs]
    cases archiveFound storage walSegment cacheRepo cacheArchive.archiveId with
    | error e => exact ⟨cacheArchive :: archiveList, rfl, hcached, rfl⟩
    | ok files =>
      refine ⟨cacheArchive' :: archiveList', ?_, forall_mem_cons.mpr ⟨hcached', hcacheds⟩, rfl⟩
      rw [map_cons, map_cons, hid, hids]

end

theorem bare_archiveList {archiveList' : List ArchiveGetFindCacheArchive} (warnList : List Str)
    (hids : archiveList'.map ArchiveGetFindCacheArchive.archiveId
      = cacheRepo.archiveList.map ArchiveGetFindCacheArchive.archiveId) :
    ArchiveGetFindCacheRepo.bare { cacheRepo with archiveList := archiveList', warnList := warnList }
      = cacheRepo.bare := by
  have hbare : ∀ archiveList : List ArchiveGetFindCacheArchive,
      archiveList.map (fun cacheArchive => (⟨cacheArchive.archiveId, []⟩ : ArchiveGetFindCacheArchive))
        = (archiveList.map ArchiveGetFindCacheArchive.archiveId).map fun archiveId => ⟨archiveId, []⟩ :=
    fun archiveList => by rw [map_map]; rfl
  unfold ArchiveGetFindCacheRepo.bare
  rw [hbare archiveList', hids, hbare]

/-- **What is found does not depend on the lists that are kept.** -/
theorem archiveGetFindRepos_eq (hsegment : walIsSegment walSegment = true)
    (h : single = true ∨ IsWalSegmentName walSegment) (cacheRepoList : List ArchiveGetFindCacheRepo) :
    ∀ state : ArchiveGetFindState,
    (∀ cacheRepo ∈ cacheRepoList, RepoCached storage cacheRepo) →
    ∃ cacheRepoList', cacheRepoList'.map ArchiveGetFindCacheRepo.bare
        = cacheRepoList.map ArchiveGetFindCacheRepo.bare
      ∧ (∀ cacheRepo ∈ cacheRepoList', RepoCached storage cacheRepo)
      ∧ archiveGetFindRepos storage single walSegment cacheRepoList state =
        (reposFound storage walSegment cacheRepoList state, cacheRepoList') := by
  induction cacheRepoList with
  | nil => exact fun state _ => ⟨[], rfl, nofun, rfl⟩
  | cons cacheRepo cacheRepoList ih =>
    intro state hcached
    have ⟨hhead, htail⟩ := forall_mem_cons.mp hcached
    have ⟨archiveList', hids, hcacheds, heq⟩ :=
      @archiveGetFindArchives_eq storage walSegment single cacheRepo hsegment h cacheRepo.archiveList hhead
    unfold archiveGetFindRepos reposFound
    rw [heq]
    generalize archivesFound storage walSegment cacheRepo cacheRepo.archiveList = found
    match found with
    | (files, none) =>
      have ⟨cacheRepoList', hbare, hcached', heq'⟩ := ih
        { state with matchList := state.matchList ++ files } htail
      refine ⟨{ cacheRepo with archiveList := archiveList' } :: cacheRepoList', ?_,
        forall_mem_cons.mpr ⟨hcacheds, hcached'⟩, ?_⟩
      · rw [map_cons, map_cons, hbare]
        exact congrArg (· :: _) (bare_archiveList cacheRepo.warnList hids)
      · dsimp only
        rw [heq']
        rfl
    | (files, some error) =>
      have ⟨cacheRepoList', hbare, hcached', heq'⟩ := ih
        { matchList := state.matchList ++ files
          fileWarnList := archiveGetErrorAdd storage state.fileWarnList cacheRepo.repoIdx error
          repoErrorTotal := state.repoErrorTotal + 1 } htail
      refine ⟨{ cacheRepo with
          archiveList := archiveList'
          warnList := archiveGetErrorAdd storage cacheRepo.warnList cacheRepo.repoIdx error } ::
          cacheRepoList', ?_, forall_mem_cons.mpr ⟨hcacheds, hcached'⟩, ?_⟩
      · rw [map_cons, map_cons, hbare]
        exact congrArg (· :: _) (bare_archiveList _ hids)
      · dsimp only
        rw [heq']
        rfl

theorem archivesFound_bare (archiveList : List ArchiveGetFindCacheArchive) :
    archivesFound storage walSegment cacheRepo.bare
        (archiveList.map fun cacheArchive => ⟨cacheArchive.archiveId, []⟩)
      = archivesFound storage walSegment cacheRepo archiveList := by
  induction archiveList with
  | nil => rfl
  | cons cacheArchive archiveList ih =>
    rw [map_cons, archivesFound, ih]
    rfl

theorem reposFound_bare (cacheRepoList : List ArchiveGetFindCacheRepo) : ∀ state : ArchiveGetFindState,
    reposFound storage walSegment (cacheRepoList.map ArchiveGetFindCacheRepo.bare) state
      = reposFound storage walSegment cacheRepoList state := by
  induction cacheRepoList with
  | nil => exact fun _ => rfl
  | cons cacheRepo cacheRepoList ih =>
    intro state
    have harchives := @archivesFound_bare storage walSegment cacheRepo cacheRepo.archiveList
    rw [map_cons, reposFound, reposFound]
    show reposFound storage walSegment (cacheRepoList.map ArchiveGetFindCacheRepo.bare)
      ⟨state.matchList ++ (archivesFound storage walSegment cacheRepo.bare cacheRepo.bare.archiveList).1, _, _⟩ = _
    rw [show cacheRepo.bare.archiveList
      = cacheRepo.archiveList.map fun cacheArchive => ⟨cacheArchive.archiveId, []⟩ from rfl, harchives]
    exact ih _

end Found

/-! ## Many requests -/

section Requests

variable (storage : ArchiveGetStorage) (warnList : List Str) (cacheRepoList : List ArchiveGetFindCacheRepo)

/-- What comes of a request, added to a result. -/
def segmentFind (walSegment : Str) (getCheckResult : ArchiveGetCheckResult) :
    Bool × ArchiveGetCheckResult :=
  archiveGetFindResult storage walSegment cacheRepoList.length
    (reposFound storage walSegment cacheRepoList ⟨[], warnList, 0⟩) getCheckResult

/-- What comes of requests, up to one that is not found. -/
def segmentsFind : List Str → ArchiveGetCheckResult → ArchiveGetCheckResult
  | [], result => result
  | walSegment :: requests, result =>
    if (segmentFind storage warnList cacheRepoList walSegment result).1 then
      segmentsFind requests (segmentFind storage warnList cacheRepoList walSegment result).2
    else (segmentFind storage warnList cacheRepoList walSegment result).2

variable {storage warnList cacheRepoList}

theorem segmentFind_bare {cacheRepoList' : List ArchiveGetFindCacheRepo}
    (h : cacheRepoList'.map ArchiveGetFindCacheRepo.bare = cacheRepoList.map ArchiveGetFindCacheRepo.bare) :
    segmentFind storage warnList cacheRepoList' = segmentFind storage warnList cacheRepoList := by
  have hlength := congrArg length h
  rw [length_map, length_map] at hlength
  funext walSegment result
  unfold segmentFind
  rw [← reposFound_bare cacheRepoList', h, reposFound_bare, hlength]

/-- **Looking for many segments** finds what the storage holds for each. -/
theorem archiveGetFindList_eq {single : Bool} (requests : List Str) :
    ∀ (cacheRepoList' : List ArchiveGetFindCacheRepo) (result : ArchiveGetCheckResult),
    (∀ walSegment ∈ requests, IsWalSegmentName walSegment) →
    (∀ cacheRepo ∈ cacheRepoList', RepoCached storage cacheRepo) →
    cacheRepoList'.map ArchiveGetFindCacheRepo.bare = cacheRepoList.map ArchiveGetFindCacheRepo.bare →
    archiveGetFindList storage single warnList requests result cacheRepoList'
      = segmentsFind storage warnList cacheRepoList requests result := by
  induction requests with
  | nil => exact fun _ _ _ _ _ => rfl
  | cons walSegment requests ih =>
    intro cacheRepoList' result hrequests hcached hbare
    have ⟨hhead, htail⟩ := forall_mem_cons.mp hrequests
    have ⟨cacheRepoList'', hbare', hcached', heq⟩ :=
      @archiveGetFindRepos_eq storage walSegment single hhead.isSegment (Or.inr hhead) cacheRepoList'
        ⟨[], warnList, 0⟩ hcached
    have hfind : archiveGetFind storage single walSegment warnList result cacheRepoList'
        = (segmentFind storage warnList cacheRepoList walSegment result, cacheRepoList'') := by
      unfold archiveGetFind
      rw [heq, ← segmentFind_bare hbare]
      rfl
    rw [archiveGetFindList, segmentsFind, hfind]
    generalize segmentFind storage warnList cacheRepoList walSegment result = found
    match found with
    | (true, result) => exact ih cacheRepoList'' result htail hcached' (hbare'.trans hbare)
    | (false, result) => rfl

section

variable (walSegment : Str) (result : ArchiveGetCheckResult)

theorem segmentFind_append (entries : List ArchiveFileMap) :
    segmentFind storage warnList cacheRepoList walSegment
        { result with archiveFileMapList := entries ++ result.archiveFileMapList } =
      ((segmentFind storage warnList cacheRepoList walSegment result).1,
        { (segmentFind storage warnList cacheRepoList walSegment result).2 with
          archiveFileMapList := entries
            ++ (segmentFind storage warnList cacheRepoList walSegment result).2.archiveFileMapList }) := by
  unfold segmentFind archiveGetFindResult
  split_ifs
  · rfl
  · rfl
  · dsimp only
    rw [append_assoc]
  · rfl

theorem segmentFind_entry :
    ((segmentFind storage warnList cacheRepoList walSegment result).1 = true
      ∧ ∃ entry : ArchiveFileMap, entry.request = walSegment
        ∧ (segmentFind storage warnList cacheRepoList walSegment result).2 =
          { result with archiveFileMapList := result.archiveFileMapList ++ [entry] })
      ∨ (segmentFind storage warnList cacheRepoList walSegment result).1 = false
        ∧ (segmentFind storage warnList cacheRepoList walSegment result).2.archiveFileMapList
          = result.archiveFileMapList := by
  unfold segmentFind archiveGetFindResult
  split_ifs
  · exact Or.inr ⟨rfl, rfl⟩
  · exact Or.inr ⟨rfl, rfl⟩
  · exact Or.inl ⟨rfl, _, rfl, rfl⟩
  · exact Or.inr ⟨rfl, rfl⟩

end

theorem segmentsFind_append (requests : List Str) (entries : List ArchiveFileMap) :
    ∀ result : ArchiveGetCheckResult,
    segmentsFind storage warnList cacheRepoList requests
        { result with archiveFileMapList := entries ++ result.archiveFileMapList } =
      { segmentsFind storage warnList cacheRepoList requests result with
        archiveFileMapList := entries
          ++ (segmentsFind storage warnList cacheRepoList requests result).archiveFileMapList } := by
  induction requests with
  | nil => exact fun _ => rfl
  | cons walSegment requests ih =>
    intro result
    rw [segmentsFind, segmentsFind, segmentFind_append]
    split
    · exact ih _
    · rfl

/-- Whether a request is found does not depend on the others. -/
theorem segmentFind_fst (walSegment : Str) (result result' : ArchiveGetCheckResult) :
    (segmentFind storage warnList cacheRepoList walSegment result).1
      = (segmentFind storage warnList cacheRepoList walSegment result').1 := by
  unfold segmentFind archiveGetFindResult
  split_ifs <;> rfl

section

variable (requests : List Str) (base : ArchiveGetCheckResult)

/-- **What is in the map** are the requests up to the first one that is not
found. -/
theorem segmentsFind_requests :
    ∀ result : ArchiveGetCheckResult, ∃ found rest, requests = found ++ rest
      ∧ (segmentsFind storage warnList cacheRepoList requests result).archiveFileMapList.map
          ArchiveFileMap.request = result.archiveFileMapList.map ArchiveFileMap.request ++ found
      ∧ (∀ walSegment ∈ found, (segmentFind storage warnList cacheRepoList walSegment base).1 = true)
      ∧ ∀ walSegment ∈ rest.head?, (segmentFind storage warnList cacheRepoList walSegment base).1 = false := by
  induction requests with
  | nil => exact fun result => ⟨[], [], rfl, (append_nil _).symm, nofun, nofun⟩
  | cons walSegment requests ih =>
    intro result
    have hfst := @segmentFind_fst storage warnList cacheRepoList walSegment result base
    rw [segmentsFind]
    rcases @segmentFind_entry storage warnList cacheRepoList walSegment result with
      ⟨hfound, entry, hrequest, heq⟩ | ⟨hnot, hmap⟩
    · have ⟨found, rest, hsplit, hmap, hall, hrest⟩ :=
        ih (segmentFind storage warnList cacheRepoList walSegment result).2
      refine ⟨walSegment :: found, rest, ?_, ?_, forall_mem_cons.mpr ⟨hfst ▸ hfound, hall⟩, hrest⟩
      · rw [hsplit, cons_append]
      · rw [if_pos hfound, hmap, heq, map_append, append_assoc]
        refine congrArg (_ ++ ·) ?_
        rw [← hrequest]
        rfl
    · refine ⟨[], walSegment :: requests, rfl, ?_, nofun, ?_⟩
      · rw [hnot, if_neg Bool.false_ne_true, hmap, append_nil]
      · intro other hother
        rw [← Option.some.inj hother, ← hfst, hnot]

/-- The first request that is not in the map is at the position that is the
number of entries. -/
theorem archiveFileMissing_segmentsFind (hbase : base.archiveFileMapList = [])
    (result : ArchiveGetCheckResult) (hresult : result.archiveFileMapList.Perm
      (segmentsFind storage warnList cacheRepoList requests base).archiveFileMapList) :
    archiveFileMissing requests result = requests.find? fun walSegment =>
      walSegment ∉ result.archiveFileMapList.map ArchiveFileMap.request := by
  have ⟨found, rest, hsplit, hmap, hall, hrest⟩ :=
    @segmentsFind_requests storage warnList cacheRepoList requests base base
  rw [hbase, map_nil, nil_append] at hmap
  have hperm := hresult.map ArchiveFileMap.request
  rw [hmap] at hperm
  have hlength : result.archiveFileMapList.length = found.length := by
    rw [← hperm.length_eq, length_map]
  have hnone : found.find? (fun walSegment =>
      walSegment ∉ result.archiveFileMapList.map ArchiveFileMap.request) = none := by
    rw [find?_eq_none]
    intro walSegment hmem
    simpa using mem_map.mp (hperm.mem_iff.mpr hmem)
  unfold archiveFileMissing
  rw [hlength, hsplit, find?_append, hnone, Option.none_or, length_append]
  cases rest with
  | nil =>
    rw [length_nil, Nat.add_zero, if_neg (lt_irrefl _)]
    rfl
  | cons walSegment rest =>
    have hnot : walSegment ∉ result.archiveFileMapList.map ArchiveFileMap.request := by
      intro hmem
      have hfound := hall walSegment (hperm.mem_iff.mp hmem)
      rw [hrest walSegment rfl] at hfound
      exact Bool.false_ne_true hfound
    rw [if_pos (by rw [length_cons]; omega), getElem?_append_right le_rfl, Nat.sub_self,
      find?_cons_of_pos (by simpa using hnot)]
    rfl

end

end Requests

/-! ## The check -/

theorem pathList_archiveGetArchiveList {controlInfo : PgControl}
    {archivePathList : Except Error (List Str)} (history : List InfoPgData) :
    ∀ (pgIdx : ℕ) (archiveList : List ArchiveGetFindCacheArchive),
    archiveGetArchiveList controlInfo archivePathList pgIdx history = .ok archiveList →
    ∀ cacheArchive ∈ archiveList, cacheArchive.pathList = [] := by
  induction history with
  | nil =>
    intro pgIdx archiveList h
    cases h
    exact fun _ hmem => absurd hmem not_mem_nil
  | cons pgData history ih =>
    intro pgIdx archiveList h
    rw [archiveGetArchiveList] at h
    split at h
    next hmatch =>
      have hfound : ∀ found : Bool,
          (archiveGetArchiveList controlInfo archivePathList (pgIdx + 1) history >>= fun archiveList =>
            Except.ok (if found then ⟨infoPgArchiveId pgData, []⟩ :: archiveList else archiveList))
              = .ok archiveList →
          ∀ cacheArchive ∈ archiveList, cacheArchive.pathList = [] := by
        intro found h
        obtain ⟨rest, hrest, h⟩ := ok_of_bind h
        have hnil := ih _ rest hrest
        cases h
        split
        · exact forall_mem_cons.mpr ⟨rfl, hnil⟩
        · exact hnil
      split at h
      · obtain ⟨found, -, h⟩ := ok_of_bind h
        exact hfound found h
      · exact hfound true h
    next hmatch => exact ih _ archiveList h

theorem pathList_archiveGetCacheRepoList {storage : ArchiveGetStorage} {controlInfo : PgControl}
    {repo : Option ℕ} (repos : List ArchiveGetRepo) : ∀ (repoIdx : ℕ) (warnList : List Str),
    ∀ cacheRepo ∈ (archiveGetCacheRepoList storage controlInfo repo repoIdx repos warnList).2,
      ∀ cacheArchive ∈ cacheRepo.archiveList, cacheArchive.pathList = [] := by
  induction repos with
  | nil => nofun
  | cons next repos ih =>
    intro repoIdx warnList
    rw [archiveGetCacheRepoList]
    split
    · exact ih _ _
    · cases hrepo : archiveGetCacheRepo controlInfo repoIdx next with
      | error e => exact ih _ _
      | ok cacheRepo =>
        refine forall_mem_cons.mpr ⟨?_, ih _ _⟩
        have ⟨info, hinfo, hrepo⟩ := ok_of_bind hrepo
        have ⟨archiveList, hlist, hrepo⟩ := ok_of_bind hrepo
        split at hrepo
        · cases hrepo
        · cases hrepo
          exact pathList_archiveGetArchiveList _ _ _ hlist

section Check

variable (storage : ArchiveGetStorage) (cluster : ArchiveGetCluster) (repo : Option ℕ)
  (repos : List ArchiveGetRepo)

/-- Check each request alone, up to the first one that is not found. -/
def archiveGetCheckEach : List Str → Except Error ArchiveGetCheckResult
  | [] => archiveGetCheck storage cluster repo repos []
  | [walSegment] => archiveGetCheck storage cluster repo repos [walSegment]
  | walSegment :: next :: requests => do
    let result ← archiveGetCheck storage cluster repo repos [walSegment]
    if result.archiveFileMapList = [] then .ok result
    else
      let rest ← archiveGetCheckEach (next :: requests)
      .ok { rest with archiveFileMapList := result.archiveFileMapList ++ rest.archiveFileMapList }

variable {storage cluster repo repos} {warnList : List Str} {cacheRepoList : List ArchiveGetFindCacheRepo}

theorem archiveFileMapSort_perm (result : ArchiveGetCheckResult) :
    (archiveFileMapSort result).archiveFileMapList.Perm result.archiveFileMapList :=
  perm_insertionSort _ _

/-- When the repositories can be looked in, each request is looked for alone. -/
theorem archiveGetCheckEach_eq {base : ArchiveGetCheckResult} (hbase : base.archiveFileMapList = [])
    (hone : ∀ walSegment, IsWalSegmentName walSegment →
      archiveGetCheck storage cluster repo repos [walSegment] =
        .ok (archiveFileMapSort (segmentsFind storage warnList cacheRepoList [walSegment] base)))
    (requests : List Str) (hne : requests ≠ []) :
    (∀ walSegment ∈ requests, IsWalSegmentName walSegment) →
    archiveGetCheckEach storage cluster repo repos requests =
      .ok (segmentsFind storage warnList cacheRepoList requests base) := by
  have hsort : ∀ walSegment, archiveFileMapSort (segmentsFind storage warnList cacheRepoList [walSegment] base)
      = (segmentFind storage warnList cacheRepoList walSegment base).2 := by
    intro walSegment
    have heq : segmentsFind storage warnList cacheRepoList [walSegment] base
        = (segmentFind storage warnList cacheRepoList walSegment base).2 := by
      rw [segmentsFind]
      split <;> rfl
    rw [heq]
    unfold archiveFileMapSort
    rcases @segmentFind_entry storage warnList cacheRepoList walSegment base with
      ⟨_, entry, _, heq⟩ | ⟨_, hmap⟩
    · rw [heq, hbase]
      rfl
    · rw [hmap, hbase]
      show ({ (segmentFind storage warnList cacheRepoList walSegment base).2 with
        archiveFileMapList := [] } : ArchiveGetCheckResult) = _
      rw [← hbase, ← hmap]
  induction requests with
  | nil => exact absurd rfl hne
  | cons walSegment requests ih =>
    intro hrequests
    have ⟨hhead, htail⟩ := forall_mem_cons.mp hrequests
    have hone := hone walSegment hhead
    rw [hsort] at hone
    cases requests with
    | nil =>
      rw [archiveGetCheckEach, hone, segmentsFind]
      split <;> rfl
    | cons next requests =>
      rw [archiveGetCheckEach, hone, ok_bind, segmentsFind, ih (cons_ne_nil _ _) htail]
      rcases @segmentFind_entry storage warnList cacheRepoList walSegment base with
        ⟨hfound, entry, _, heq⟩ | ⟨hnot, hmap⟩
      · rw [if_pos hfound, heq, hbase]
        have happend := @segmentsFind_append storage warnList cacheRepoList (next :: requests) [entry] base
        rw [hbase, append_nil] at happend
        rw [if_neg (by simp), nil_append, happend]
        rfl
      · rw [hnot, if_neg Bool.false_ne_true, if_pos (hmap.trans hbase)]

/-- If nothing can be looked for the requests do not matter. -/
theorem archiveGetCheckEach_const {result : Except Error ArchiveGetCheckResult}
    (h : ∀ requests, archiveGetCheck storage cluster repo repos requests = result)
    (hresult : ∀ value, result = .ok value → value.archiveFileMapList = []) (requests : List Str) :
    archiveGetCheckEach storage cluster repo repos requests = result := by
  match requests with
  | [] => exact h _
  | [walSegment] => exact h _
  | walSegment :: next :: requests =>
    rw [archiveGetCheckEach, h]
    cases result with
    | error error => rfl
    | ok value => exact if_pos (hresult value rfl)

theorem archiveFileMissing_nil {requests : List Str} (hne : requests ≠ []) {result : ArchiveGetCheckResult}
    (hresult : result.archiveFileMapList = []) :
    archiveFileMissing requests result = requests.find? fun walSegment =>
      walSegment ∉ result.archiveFileMapList.map ArchiveFileMap.request := by
  have ⟨walSegment, rest, hcons⟩ := exists_cons_of_ne_nil hne
  unfold archiveFileMissing
  rw [hresult, hcons, if_pos (by simp), find?_cons_of_pos (by simp)]
  rfl

/-- **Many requests and one**: the files that are found for many segments, and
the error, are those of each segment alone up to the first one that is not
found, and that one is at the position that is the number of files. -/
theorem archiveGetCheck_eq_each {requests : List Str} (hne : requests ≠ [])
    (hrequests : ∀ walSegment ∈ requests, IsWalSegmentName walSegment) :
    archiveGetCheck storage cluster repo repos requests
        = (archiveGetCheckEach storage cluster repo repos requests).map archiveFileMapSort
      ∧ ∀ result, archiveGetCheck storage cluster repo repos requests = .ok result →
        archiveFileMissing requests result = requests.find? fun walSegment =>
          walSegment ∉ result.archiveFileMapList.map ArchiveFileMap.request := by
  by_cases hcheckpoint : cluster.checkpointInvalid ∧ ¬ cluster.backupLabel
  · have herror : ∀ requests, archiveGetCheck storage cluster repo repos requests = .error _ :=
      fun _ => if_pos hcheckpoint
    rw [herror, archiveGetCheckEach_const herror nofun]
    exact ⟨rfl, nofun⟩
  have hpaths := @pathList_archiveGetCacheRepoList storage cluster.pgControl repo repos 0 []
  have hcheck : ∀ requests, archiveGetCheck storage cluster repo repos requests = _ :=
    fun _ => if_neg hcheckpoint
  generalize archiveGetCacheRepoList storage cluster.pgControl repo 0 repos [] = lists at hpaths hcheck
  match lists with
  | (warnList, []) =>
    have hnone : ∀ requests, archiveGetCheck storage cluster repo repos requests = .ok _ :=
      fun requests => (hcheck requests).trans (if_pos rfl)
    rw [hnone, archiveGetCheckEach_const hnone fun value h => by rw [← Except.ok.inj h]]
    refine ⟨rfl, fun result h => archiveFileMissing_nil hne ?_⟩
    rw [← Except.ok.inj h]
  | (warnList, cacheRepo :: cacheRepoList) =>
    have hcached : ∀ cacheRepo' ∈ cacheRepo :: cacheRepoList, RepoCached storage cacheRepo' := by
      intro cacheRepo' hrepo cacheArchive harchive
      unfold ArchiveCached
      rw [hpaths cacheRepo' hrepo cacheArchive harchive]
      nofun
    have hfind : ∀ requests, (∀ walSegment ∈ requests, IsWalSegmentName walSegment) →
        archiveGetCheck storage cluster repo repos requests =
          .ok (archiveFileMapSort (segmentsFind storage warnList (cacheRepo :: cacheRepoList) requests
            ⟨[], none, none, none, warnList⟩)) := by
      intro requests hrequests
      refine (hcheck requests).trans ((if_neg (cons_ne_nil _ _)).trans ?_)
      rw [archiveGetFindList_eq requests _ _ hrequests hcached rfl]
    have heach := archiveGetCheckEach_eq rfl
      (fun walSegment h => hfind [walSegment] (forall_mem_singleton.mpr h)) requests hne hrequests
    rw [hfind requests hrequests, heach]
    refine ⟨rfl, fun result h => ?_⟩
    rw [← Except.ok.inj h]
    exact archiveFileMissing_segmentsFind requests _ rfl _ (archiveFileMapSort_perm _)

end Check

/-- A repository with one segment. -/
def archiveGetStorageSample : ArchiveGetStorage where
  list _ _ path :=
    .ok (if path = "0000000100000000".toList then [walSegmentFmt 1 0 1 ++ '-' :: replicate 40 'a'] else [])
  fileExists _ _ _ := .ok false
  repoKey repoIdx := repoIdx + 1

def archiveGetRepoSample : ArchiveGetRepo where
  cipherType := "none".toList
  info := .ok ⟨⟨[⟨1, 6569239123849665679, 201809051, 110000, 1100⟩], 0⟩, none⟩
  archivePathList := .ok []

/-- Two requests, the second of which is missing. -/
theorem archiveGetCheck_eq_each_missing :
    let requests := [walSegmentFmt 1 0 1, walSegmentFmt 1 0 2]
    let cluster : ArchiveGetCluster := ⟨⟨110000, 6569239123849665679⟩, false, false⟩
    archiveGetCheck archiveGetStorageSample cluster none [archiveGetRepoSample] requests
      = (archiveGetCheckEach archiveGetStorageSample cluster none [archiveGetRepoSample] requests).map
        archiveFileMapSort := by
  refine (archiveGetCheck_eq_each (by decide) ?_).1
  unfold IsWalSegmentName
  decide +kernel

end PgxBackup
