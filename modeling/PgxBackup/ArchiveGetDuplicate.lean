import PgxBackup.ArchiveGetCached

/-!
# Duplicates of a WAL segment

If the files that are found for a segment have different checksums
`archiveGetFind` stops with an error. The checksum is cut out of the name of a
file at a position that would be right for the name alone. But the name has the
archive id and the path in front, so what is compared is the name with less than
all of its checksum, and at a position that depends on the length of the archive
id.
-/

namespace PgxBackup

open List

/-- The name of the file of a segment, behind the archive id and the path. -/
def ArchiveGetFile.segmentFile (file : ArchiveGetFile) : Str := file.file.drop (file.archiveId.length + 18)

def ArchiveGetFile.checksum (walSegment : Str) (file : ArchiveGetFile) : Str :=
  strSubN file.segmentFile (walSegment.length + 1) 40

/-- What is compared of two files: the length of the archive id, and as much of
the name as there is in front of a fixed position. -/
def SameStart (a b : ArchiveGetFile) : Prop :=
  a.archiveId.length = b.archiveId.length
    ∧ a.segmentFile.take (47 - a.archiveId.length) = b.segmentFile.take (47 - b.archiveId.length)

/-- A file of a segment in an archive. The length of the archive id is that of a
version and an id of 32 bits. -/
structure SegmentFile (walSegment : Str) (file : ArchiveGetFile) : Prop where
  archiveId_le : file.archiveId.length ≤ 17
  file_eq : file.file = file.archiveId ++ '/' :: (strSubN walSegment 0 16 ++ '/' :: file.segmentFile)
  matches_file : walSegmentFindMatch walSegment file.segmentFile = true

/-! ## Unique hashes -/

theorem archiveGetHashList_spec (matchList : List ArchiveGetFile) :
    (archiveGetHashList matchList).Nodup
      ∧ ∀ hash, hash ∈ archiveGetHashList matchList ↔ hash ∈ matchList.map archiveGetHash := by
  have hfold : ∀ (matchList : List ArchiveGetFile) (hashList : List Str), hashList.Nodup →
      (matchList.foldl (fun hashList file =>
          if archiveGetHash file ∈ hashList then hashList else hashList ++ [archiveGetHash file]) hashList).Nodup
        ∧ ∀ hash, hash ∈ matchList.foldl (fun hashList file =>
          if archiveGetHash file ∈ hashList then hashList else hashList ++ [archiveGetHash file]) hashList
            ↔ hash ∈ hashList ∨ hash ∈ matchList.map archiveGetHash := by
    intro matchList
    induction matchList with
    | nil => exact fun hashList hnodup => ⟨hnodup, fun hash => by simp⟩
    | cons file matchList ih =>
      intro hashList hnodup
      rw [foldl_cons, map_cons]
      by_cases hmem : archiveGetHash file ∈ hashList
      · rw [if_pos hmem]
        refine ⟨(ih hashList hnodup).1, fun hash => ?_⟩
        rw [(ih hashList hnodup).2, mem_cons]
        exact ⟨fun h => h.imp_right Or.inr, fun h => h.elim Or.inl fun h => h.elim
          (fun heq => Or.inl (heq ▸ hmem)) Or.inr⟩
      · have hnodup' : (hashList ++ [archiveGetHash file]).Nodup :=
          nodup_append.mpr ⟨hnodup, nodup_singleton _, fun a ha b hb heq =>
            hmem (mem_singleton.mp hb ▸ heq ▸ ha)⟩
        rw [if_neg hmem]
        refine ⟨(ih _ hnodup').1, fun hash => ?_⟩
        rw [(ih _ hnodup').2, mem_append, mem_singleton, mem_cons, or_assoc]
  have ⟨hnodup, hmem⟩ := hfold matchList [] nodup_nil
  exact ⟨hnodup, fun hash => (hmem hash).trans (or_iff_right not_mem_nil)⟩

/-- There is more than one unique hash iff two files have different ones. -/
theorem one_lt_length_archiveGetHashList (matchList : List ArchiveGetFile) :
    1 < (archiveGetHashList matchList).length
      ↔ ¬ ∀ a ∈ matchList, ∀ b ∈ matchList, archiveGetHash a = archiveGetHash b := by
  have ⟨hnodup, hmem⟩ := archiveGetHashList_spec matchList
  constructor
  · intro hlength hall
    match hlist : archiveGetHashList matchList with
    | [] => cases hlist ▸ hlength
    | [_] => exact absurd (hlist ▸ hlength) (by simp)
    | hash :: hash' :: rest =>
      rw [hlist] at hnodup hmem
      have ⟨a, ha, heqa⟩ := mem_map.mp ((hmem hash).mp mem_cons_self)
      have ⟨b, hb, heqb⟩ := mem_map.mp ((hmem hash').mp (mem_cons_of_mem _ mem_cons_self))
      have hne := (nodup_cons.mp hnodup).1
      rw [← heqa, hall a ha b hb, heqb] at hne
      exact hne mem_cons_self
  · intro hnot
    refine not_le.mp fun hle => hnot fun a ha b hb => ?_
    have hmema := (hmem _).mpr (mem_map_of_mem ha)
    have hmemb := (hmem _).mpr (mem_map_of_mem hb)
    match hlist : archiveGetHashList matchList with
    | [] => exact absurd (hlist ▸ hmema) not_mem_nil
    | [hash] =>
      rw [hlist, mem_singleton] at hmema hmemb
      rw [hmema, hmemb]
    | hash :: hash' :: rest =>
      rw [hlist] at hle
      exact absurd hle (by simp)

/-! ## What is compared -/

section Window

variable {walSegment : Str} {a b : ArchiveGetFile}

/-- What is behind the archive id. -/
def segmentTail (walSegment segmentFile : Str) : Str :=
  '/' :: (strSubN walSegment 0 16 ++ '/' :: segmentFile)

/-- A digit of the name of a segment. -/
def IsHexDigit (c : Char) : Prop := ∃ i < 16, c = hexDigit i

section

variable (hrequest : IsWalSegmentRequest walSegment)
include hrequest

theorem length_name : (walSegment.take 24).length = 24 := by
  have ⟨name, hname, hsegment⟩ := hrequest
  rw [IsWalSegmentRequest.name_eq hname hsegment, hname.1]

theorem length_path : (strSubN walSegment 0 16).length = 16 := by
  have hlength := length_name hrequest
  show (walSegment.take 16).length = 16
  rw [length_take] at hlength ⊢
  omega

theorem segmentTail_take (ha : SegmentFile walSegment a) :
    (segmentTail walSegment a.segmentFile).take 42
      = '/' :: (strSubN walSegment 0 16 ++ '/' :: walSegment.take 24) := by
  have hname := walSegmentFindMatch_take hrequest ha.matches_file
  have hpath := length_path hrequest
  unfold segmentTail
  rw [take_succ_cons, take_append, hpath, take_of_length_le (by omega),
    take_succ_cons, hname]

theorem segmentTail_digit (ha : SegmentFile walSegment a) {i : ℕ}
    (hi : (1 ≤ i ∧ i ≤ 16) ∨ (18 ≤ i ∧ i ≤ 41)) :
    ∃ c, IsHexDigit c ∧ (segmentTail walSegment a.segmentFile)[i]? = some c := by
  have hpath := length_path hrequest
  have hlength := length_name hrequest
  have hdigits : ∀ c ∈ walSegment.take 24, IsHexDigit c := by
    have ⟨name, hname, hsegment⟩ := hrequest
    rw [IsWalSegmentRequest.name_eq hname hsegment]
    exact hname.2
  have hsub : strSubN walSegment 0 16 <+: walSegment.take 24 := by
    show walSegment.take 16 <+: walSegment.take 24
    exact take_prefix_take_left (by decide)
  have htake := congrArg (·[i]?) (segmentTail_take hrequest ha)
  rw [getElem?_take_of_lt (by omega)] at htake
  rw [htake]
  rcases hi with hi | hi
  · have ⟨k, hk⟩ : ∃ k, i = k + 1 := ⟨i - 1, by omega⟩
    rw [hk, getElem?_cons_succ, getElem?_append_left (by omega), getElem?_eq_getElem (by omega)]
    exact ⟨_, hdigits _ (hsub.subset (getElem_mem _)), rfl⟩
  · have ⟨k, hk⟩ : ∃ k, i = k + 18 := ⟨i - 18, by omega⟩
    have hsplit : k + 18 = (k + 17) + 1 := rfl
    rw [hk, hsplit, getElem?_cons_succ, getElem?_append_right (by omega), hpath,
      show k + 17 - 16 = k + 1 from by omega, getElem?_cons_succ, getElem?_eq_getElem (by omega)]
    exact ⟨_, hdigits _ (getElem_mem _), rfl⟩

theorem segmentTail_slash : (segmentTail walSegment a.segmentFile)[17]? = some '/' := by
  unfold segmentTail
  rw [getElem?_cons_succ, getElem?_append_right (length_path hrequest).le, length_path hrequest]
  rfl

theorem segmentTail_rest (i : ℕ) :
    (segmentTail walSegment a.segmentFile)[i + 42]? = (a.segmentFile.drop 24)[i]? := by
  have hpath := length_path hrequest
  have hsplit : i + 42 = (i + 41) + 1 := rfl
  unfold segmentTail
  rw [hsplit, getElem?_cons_succ, getElem?_append_right (by omega), hpath,
    show i + 41 - 16 = (24 + i) + 1 from by omega, getElem?_cons_succ, getElem?_drop]

theorem segmentTail_extension (ha : SegmentFile walSegment a) :
    if walIsPartial walSegment then
      (segmentTail walSegment a.segmentFile)[43]? = some 'p'
        ∧ (segmentTail walSegment a.segmentFile)[44]? = some 'a'
    else (segmentTail walSegment a.segmentFile)[42]? = some '-' := by
  have hrest := @segmentTail_rest walSegment a hrequest
  have hmatch := (Bool.and_eq_true_iff.mp ha.matches_file).2
  split at hmatch
  next hpartial =>
    rw [if_pos hpartial]
    split at hmatch
    next c rest hdrop =>
      have ⟨more, heq⟩ := isPrefixOf_iff_prefix.mp (Bool.and_eq_true_iff.mp hmatch).1
      rw [hrest 1, hrest 2, hdrop, ← heq]
      exact ⟨rfl, rfl⟩
    next => cases hmatch
  next hpartial =>
    rw [if_neg hpartial]
    unfold isChecksumExt at hmatch
    split at hmatch
    next rest hdrop =>
      rw [hrest 0, hdrop]
      rfl
    next => cases hmatch

end

theorem SegmentFile.getElem? (ha : SegmentFile walSegment a) {k : ℕ} (hk : a.archiveId.length ≤ k) :
    a.file[k]? = (segmentTail walSegment a.segmentFile)[k - a.archiveId.length]? := by
  have hfile := ha.file_eq
  rw [hfile]
  exact getElem?_append_right hk

theorem getElem?_of_archiveGetHash (h : archiveGetHash a = archiveGetHash b) {k : ℕ} (hlow : 25 ≤ k)
    (hhigh : k < 65) : a.file[k]? = b.file[k]? := by
  have hget : ∀ file : ArchiveGetFile, (archiveGetHash file)[k - 25]? = file.file[k]? := by
    intro file
    show ((file.file.drop 25).take 40)[k - 25]? = _
    rw [getElem?_take_of_lt (by omega), getElem?_drop, Nat.add_sub_cancel' hlow]
  rw [← hget a, ← hget b, h]

/-- **Archive ids of different lengths** make the hashes different. -/
theorem archiveGetHash_ne (hrequest : IsWalSegmentRequest walSegment) (ha : SegmentFile walSegment a)
    (hb : SegmentFile walSegment b) (hlt : a.archiveId.length < b.archiveId.length) :
    archiveGetHash a ≠ archiveGetHash b := by
  intro h
  have hle := hb.archiveId_le
  -- a position that is at `i` in one tail and at a digit in the other
  have hposition : ∀ {c : Char} {i : ℕ}, ¬ IsHexDigit c → (segmentTail walSegment a.segmentFile)[i]? = some c →
      25 ≤ a.archiveId.length + i → a.archiveId.length + i < 65 →
      b.archiveId.length ≤ a.archiveId.length + i →
      ¬ ((1 ≤ a.archiveId.length + i - b.archiveId.length ∧ a.archiveId.length + i - b.archiveId.length ≤ 16)
        ∨ (18 ≤ a.archiveId.length + i - b.archiveId.length
          ∧ a.archiveId.length + i - b.archiveId.length ≤ 41)) := by
    intro c i hc hget hlow hhigh hbehind hdigit
    have hsame := getElem?_of_archiveGetHash h hlow hhigh
    have ⟨digit, hhex, hdigit⟩ := segmentTail_digit hrequest hb hdigit
    rw [ha.getElem? (by omega), hb.getElem? hbehind, Nat.add_sub_cancel_left, hget, hdigit] at hsame
    exact hc (Option.some.inj hsame ▸ hhex)
  by_cases hshort : 8 ≤ a.archiveId.length
  · have hslash : ¬ IsHexDigit '/' := by
      unfold IsHexDigit
      decide
    exact hposition hslash (segmentTail_slash hrequest) (by omega) (by omega) (by omega) (by omega)
  · have hextension := segmentTail_extension hrequest ha
    split at hextension
    next hpartial =>
      have hp : ¬ IsHexDigit 'p' := by
        unfold IsHexDigit
        decide
      by_cases hone : b.archiveId.length = a.archiveId.length + 1
      · have hextension' := segmentTail_extension hrequest hb
        rw [if_pos hpartial] at hextension'
        have hsame := @getElem?_of_archiveGetHash a b h (a.archiveId.length + 44) (by omega) (by omega)
        rw [ha.getElem? (by omega), hb.getElem? (by omega), Nat.add_sub_cancel_left, hextension.2,
          show a.archiveId.length + 44 - b.archiveId.length = 43 from by omega, hextension'.1] at hsame
        cases hsame
      · exact hposition hp hextension.1 (by omega) (by omega) (by omega) (by omega)
    next hpartial =>
      have hdash : ¬ IsHexDigit '-' := by
        unfold IsHexDigit
        decide
      exact hposition hdash hextension (by omega) (by omega) (by omega) (by omega)

theorem archiveGetHash_eq (ha : SegmentFile walSegment a) :
    archiveGetHash a = ((segmentTail walSegment a.segmentFile).take (65 - a.archiveId.length)).drop
      (25 - a.archiveId.length) := by
  have hle := ha.archiveId_le
  have hfile := ha.file_eq
  have hsize : 65 - a.archiveId.length = 25 - a.archiveId.length + 40 := by omega
  unfold archiveGetHash strSubN
  rw [hfile, drop_append, drop_of_length_le (by omega), nil_append, hsize, drop_take,
    Nat.add_sub_cancel_left]
  rfl

section

variable (hrequest : IsWalSegmentRequest walSegment) (ha : SegmentFile walSegment a)
include hrequest ha

/-- The beginning of the tail, as far as it is compared. -/
theorem segmentTail_take_start :
    (segmentTail walSegment a.segmentFile).take (65 - a.archiveId.length)
      = '/' :: (strSubN walSegment 0 16 ++ '/' :: a.segmentFile.take (47 - a.archiveId.length)) := by
  have hle := ha.archiveId_le
  have hpath := length_path hrequest
  have hsize : 65 - a.archiveId.length = (16 + (47 - a.archiveId.length + 1)) + 1 := by omega
  unfold segmentTail
  rw [hsize, take_succ_cons, take_append, hpath, take_of_length_le (by omega),
    Nat.add_sub_cancel_left, take_succ_cons]

/-- **What the hashes compare**. -/
theorem archiveGetHash_eq_iff (hb : SegmentFile walSegment b) :
    archiveGetHash a = archiveGetHash b ↔ SameStart a b := by
  rcases lt_trichotomy a.archiveId.length b.archiveId.length with hlt | heq | hgt
  · exact iff_of_false (archiveGetHash_ne hrequest ha hb hlt) fun h => hlt.ne h.1
  · have hle := ha.archiveId_le
    -- what is in front of the hashes is the same
    have hfront : (segmentTail walSegment a.segmentFile).take (25 - a.archiveId.length)
        = (segmentTail walSegment b.segmentFile).take (25 - b.archiveId.length) := by
      have htake : ∀ s : Str, s.take (25 - a.archiveId.length) = (s.take 42).take (25 - a.archiveId.length) :=
        fun s => by rw [take_take, Nat.min_eq_left (by omega)]
      rw [← heq, htake, htake (segmentTail walSegment b.segmentFile), segmentTail_take hrequest ha,
        segmentTail_take hrequest hb]
    have hsplit : ∀ s : Str, s.take (65 - a.archiveId.length) = s.take (25 - a.archiveId.length)
        ++ (s.take (65 - a.archiveId.length)).drop (25 - a.archiveId.length) := by
      intro s
      have happend := take_append_drop (25 - a.archiveId.length) (s.take (65 - a.archiveId.length))
      rw [take_take, Nat.min_eq_left (by omega)] at happend
      exact happend.symm
    have hstart : SameStart a b ↔ (segmentTail walSegment a.segmentFile).take (65 - a.archiveId.length)
        = (segmentTail walSegment b.segmentFile).take (65 - b.archiveId.length) := by
      rw [segmentTail_take_start hrequest ha, segmentTail_take_start hrequest hb]
      unfold SameStart
      simp [heq]
    rw [← heq] at hfront hstart
    rw [hstart, archiveGetHash_eq ha, archiveGetHash_eq hb, ← heq]
    constructor
    · intro h
      exact (hsplit _).trans ((congrArg₂ (· ++ ·) hfront h).trans (hsplit _).symm)
    · intro h
      rw [h]
  · exact iff_of_false (archiveGetHash_ne hrequest hb ha hgt).symm fun h => hgt.ne' h.1

end

end Window

/-! ## The files that are found -/

section Files

variable (storage : ArchiveGetStorage) (walSegment : Str)

/-- The matching files of the repositories, in the order of repositories and
archive ids. -/
def matchingFiles (cacheRepoList : List ArchiveGetFindCacheRepo) : List ArchiveGetFile :=
  cacheRepoList.flatMap fun cacheRepo => (archivesFound storage walSegment cacheRepo cacheRepo.archiveList).1

/-- A repository that can be listed. -/
def RepoReadable (cacheRepo : ArchiveGetFindCacheRepo) : Prop :=
  (archivesFound storage walSegment cacheRepo cacheRepo.archiveList).2 = none

variable {storage walSegment} {cacheRepo : ArchiveGetFindCacheRepo}

/-- An archive id has a version and an id of 32 bits. -/
def IsArchiveId (archiveId : Str) : Prop :=
  ∃ pg : InfoPgData, pg.version < 2 ^ 32 ∧ pg.id < 2 ^ 32 ∧ archiveId = infoPgArchiveId pg

theorem IsArchiveId.length_le {archiveId : Str} (h : IsArchiveId archiveId) : archiveId.length ≤ 17 := by
  have ⟨pg, hversion, hid, heq⟩ := h
  have hdigits : ∀ {n w : ℕ}, 0 < w → n < 10 ^ w → (Nat.toDigits 10 n).length ≤ w :=
    fun hw => (Nat.length_toDigits_le_iff (by decide) hw).mpr
  have hidDigits := @hdigits pg.id 10 (by decide) (by omega)
  have hversionStr : (pgVersionToStr pg.version).length ≤ 6 := by
    unfold pgVersionToStr
    split
    · exact hdigits (by decide) (by omega)
    · have hmajor := @hdigits (pg.version / 10000) 1 (by decide) (by omega)
      have hminor := @hdigits (pg.version % 10000 / 100) 2 (by decide) (by omega)
      rw [length_append, length_cons]
      omega
  rw [heq, infoPgArchiveId, length_append, length_cons]
  omega

theorem segmentFile_of_mem (hrequest : IsWalSegmentRequest walSegment) {file : ArchiveGetFile}
    (archiveList : List ArchiveGetFindCacheArchive) :
    (∀ cacheArchive ∈ archiveList, IsArchiveId cacheArchive.archiveId) →
    file ∈ (archivesFound storage walSegment cacheRepo archiveList).1 → SegmentFile walSegment file := by
  induction archiveList with
  | nil => exact fun _ hmem => absurd hmem not_mem_nil
  | cons cacheArchive archiveList ih =>
    intro hids hmem
    obtain ⟨hid, hids⟩ := forall_mem_cons.mp hids
    rw [archivesFound] at hmem
    cases hfound : archiveFound storage walSegment cacheRepo cacheArchive.archiveId with
    | error e =>
      rw [hfound] at hmem
      cases hmem
    | ok files =>
      rw [hfound] at hmem
      rcases mem_append.mp hmem with hmem | hmem
      · unfold archiveFound at hfound
        obtain ⟨listed, hlist, hfound⟩ := ok_of_bind hfound
        rw [← Except.ok.inj hfound] at hmem
        obtain ⟨segment, hsegment, heq⟩ := mem_map.mp hmem
        have hname : file.segmentFile = segment := by
          have hpath := length_path hrequest
          have hsplit : cacheArchive.archiveId ++ '/' :: (strSubN walSegment 0 16 ++ '/' :: segment)
              = (cacheArchive.archiveId ++ '/' :: (strSubN walSegment 0 16 ++ ['/'])) ++ segment := by simp
          rw [← heq]
          show (cacheArchive.archiveId ++ '/' :: (strSubN walSegment 0 16 ++ '/' :: segment)).drop
            (cacheArchive.archiveId.length + 18) = segment
          rw [hsplit]
          exact drop_left' (by simp [hpath])
        refine ⟨?_, ?_, ?_⟩
        · rw [← heq]
          exact hid.length_le
        · rw [hname, ← heq]
          rfl
        · rw [hname]
          exact (mem_filter.mp hsegment).2
      · exact ih hids hmem

/-- What is found in all repositories, and how many have errors. -/
theorem reposFound_eq (cacheRepoList : List ArchiveGetFindCacheRepo) : ∀ state : ArchiveGetFindState,
    (reposFound storage walSegment cacheRepoList state).matchList
        = state.matchList ++ matchingFiles storage walSegment cacheRepoList
      ∧ (reposFound storage walSegment cacheRepoList state).repoErrorTotal = state.repoErrorTotal
        + cacheRepoList.countP fun cacheRepo =>
          (archivesFound storage walSegment cacheRepo cacheRepo.archiveList).2.isSome := by
  induction cacheRepoList with
  | nil => exact fun state => ⟨(append_nil _).symm, rfl⟩
  | cons cacheRepo cacheRepoList ih =>
    intro state
    rw [reposFound]
    rw [(ih _).1, (ih _).2]
    refine ⟨append_assoc .., ?_⟩
    rw [countP_cons]
    cases (archivesFound storage walSegment cacheRepo cacheRepo.archiveList).2 with
    | none => rfl
    | some error =>
      rw [if_pos (show (some error).isSome = true from rfl)]
      show state.repoErrorTotal + 1 + _ = _
      omega

/-- If a repository can be listed not all of them have errors. -/
theorem repoErrorTotal_ne {cacheRepoList : List ArchiveGetFindCacheRepo}
    (h : ∃ cacheRepo ∈ cacheRepoList, RepoReadable storage walSegment cacheRepo) (warnList : List Str) :
    (reposFound storage walSegment cacheRepoList ⟨[], warnList, 0⟩).repoErrorTotal ≠ cacheRepoList.length := by
  have ⟨cacheRepo, hmem, hreadable⟩ := h
  rw [(reposFound_eq cacheRepoList _).2, Nat.zero_add]
  intro hall
  have herror := countP_eq_length.mp hall cacheRepo hmem
  rw [hreadable] at herror
  exact Bool.false_ne_true herror

end Files

/-- Whether duplicates are reported exactly if two matching files have different
checksums, and otherwise all matching files are in the map. -/
def DuplicatesExact (walSegment : Str) (files : List ArchiveGetFile) (warnList : List Str)
    (before after : ArchiveGetCheckResult) : Prop :=
  (after.errorType = some .archiveDuplicateError
    ↔ ∃ a ∈ files, ∃ b ∈ files, a.checksum walSegment ≠ b.checksum walSegment)
  ∧ ((∀ a ∈ files, ∀ b ∈ files, a.checksum walSegment = b.checksum walSegment) →
    after.archiveFileMapList = before.archiveFileMapList
      ++ if files = [] then [] else [⟨walSegment, files, warnList⟩])

/-- **What the matching files must be like**: copies whose archive ids have one
length and whose names agree as far as they are compared, or files of which two
differ in one of these and two in their checksums. -/
def CopiesTold (walSegment : Str) (files : List ArchiveGetFile) : Prop :=
  (∀ a ∈ files, ∀ b ∈ files, SameStart a b ∧ a.checksum walSegment = b.checksum walSegment) ∨
    (∃ a ∈ files, ∃ b ∈ files, ¬ SameStart a b) ∧
      ∃ a ∈ files, ∃ b ∈ files, a.checksum walSegment ≠ b.checksum walSegment

/-- The copies are those that have one beginning just if they have one
checksum. -/
theorem copiesTold_iff {walSegment : Str} {files : List ArchiveGetFile} :
    CopiesTold walSegment files ↔ ((∀ a ∈ files, ∀ b ∈ files, SameStart a b)
      ↔ ∀ a ∈ files, ∀ b ∈ files, a.checksum walSegment = b.checksum walSegment) := by
  have hstart : (∃ a ∈ files, ∃ b ∈ files, ¬ SameStart a b) ↔ ¬ ∀ a ∈ files, ∀ b ∈ files, SameStart a b := by
    push Not
    rfl
  have hchecksum : (∃ a ∈ files, ∃ b ∈ files, a.checksum walSegment ≠ b.checksum walSegment) ↔
      ¬ ∀ a ∈ files, ∀ b ∈ files, a.checksum walSegment = b.checksum walSegment := by
    push Not
    rfl
  unfold CopiesTold
  rw [hstart, hchecksum]
  refine (or_congr_left ?_).trans iff_iff_and_or_not_and_not.symm
  refine ⟨fun h => ⟨fun a ha b hb => (h a ha b hb).1, fun a ha b hb => (h a ha b hb).2⟩, ?_⟩
  exact fun h a ha b hb => ⟨h.1 a ha b hb, h.2 a ha b hb⟩

theorem IsWalSegmentRequest.isSegment {walSegment : Str} (h : IsWalSegmentRequest walSegment) :
    walIsSegment walSegment = true := by
  have ⟨name, hname, hsegment⟩ := h
  rcases hsegment with rfl | rfl
  · exact hname.isSegment
  · unfold walIsSegment
    rw [take_left' hname.1, drop_left' hname.1, isHexRange_of_hex hname.1 hname.2]
    rfl

/-- When the error about duplicates is set. -/
theorem duplicate_iff {walSegment : Str} (hrequest : IsWalSegmentRequest walSegment) {files : List ArchiveGetFile}
    (hfiles : ∀ file ∈ files, SegmentFile walSegment file) :
    (walIsSegment walSegment = true ∧ files.length > 1 ∧ (archiveGetHashList files).length > 1)
      ↔ ¬ ∀ a ∈ files, ∀ b ∈ files, SameStart a b := by
  have hsame : (∀ a ∈ files, ∀ b ∈ files, archiveGetHash a = archiveGetHash b)
      ↔ ∀ a ∈ files, ∀ b ∈ files, SameStart a b :=
    forall₂_congr fun a ha => forall₂_congr fun b hb =>
      archiveGetHash_eq_iff hrequest (hfiles a ha) (hfiles b hb)
  have hhash := one_lt_length_archiveGetHashList files
  rw [hsame] at hhash
  constructor
  · exact fun h => hhash.mp h.2.2
  · intro hnot
    refine ⟨hrequest.isSegment, not_le.mp fun hle => hnot ?_, hhash.mpr hnot⟩
    rw [← hsame]
    match files with
    | [] => nofun
    | [file] =>
      intro a ha b hb
      rw [mem_singleton.mp ha, mem_singleton.mp hb]
    | _ :: _ :: _ => exact absurd hle (by simp)

/-- **Duplicates are reported exactly** when what is compared of the matching files
tells the copies. -/
theorem archiveGetFind_duplicate_exact {storage : ArchiveGetStorage} {single : Bool} {walSegment : Str}
    (hrequest : IsWalSegmentRequest walSegment) (hsingle : single = true ∨ IsWalSegmentName walSegment)
    {cacheRepoList : List ArchiveGetFindCacheRepo}
    (hcached : ∀ cacheRepo ∈ cacheRepoList, RepoCached storage cacheRepo)
    (hids : ∀ cacheRepo ∈ cacheRepoList, ∀ cacheArchive ∈ cacheRepo.archiveList,
      IsArchiveId cacheArchive.archiveId)
    (hreadable : ∃ cacheRepo ∈ cacheRepoList, RepoReadable storage walSegment cacheRepo)
    (archiveFileMapList : List ArchiveFileMap) (warnList : List Str) :
    DuplicatesExact walSegment (matchingFiles storage walSegment cacheRepoList)
        (reposFound storage walSegment cacheRepoList ⟨[], warnList, 0⟩).fileWarnList
        ⟨archiveFileMapList, none, none, none, warnList⟩
        (archiveGetFind storage single walSegment warnList ⟨archiveFileMapList, none, none, none, warnList⟩
          cacheRepoList).1.2
      ↔ CopiesTold walSegment (matchingFiles storage walSegment cacheRepoList) := by
  have hfiles : ∀ file ∈ matchingFiles storage walSegment cacheRepoList, SegmentFile walSegment file := by
    intro file hmem
    have ⟨cacheRepo, hrepo, hmem⟩ := mem_flatMap.mp hmem
    exact segmentFile_of_mem hrequest cacheRepo.archiveList (hids cacheRepo hrepo) hmem
  have ⟨_, _, _, hfind⟩ := @archiveGetFindRepos_eq storage walSegment single hrequest.isSegment hsingle
    cacheRepoList ⟨[], warnList, 0⟩ hcached
  have hmatch := (@reposFound_eq storage walSegment cacheRepoList ⟨[], warnList, 0⟩).1
  have hduplicate := duplicate_iff hrequest hfiles
  rw [copiesTold_iff]
  unfold archiveGetFind archiveGetFindResult
  rw [hfind]
  dsimp only
  rw [if_neg (repoErrorTotal_ne hreadable warnList), hmatch, nil_append]
  generalize (reposFound storage walSegment cacheRepoList ⟨[], warnList, 0⟩).fileWarnList = fileWarnList
  generalize matchingFiles storage walSegment cacheRepoList = files at hduplicate hfiles
  have hdiffer : (∃ a ∈ files, ∃ b ∈ files, a.checksum walSegment ≠ b.checksum walSegment)
      ↔ ¬ ∀ a ∈ files, ∀ b ∈ files, a.checksum walSegment = b.checksum walSegment := by
    push Not
    rfl
  unfold DuplicatesExact
  rw [hdiffer]
  by_cases hnil : files = []
  · rw [hnil, if_neg (not_not.mpr rfl)]
    simp
  · rw [if_pos hnil, if_neg hnil]
    by_cases hsame : ∀ a ∈ files, ∀ b ∈ files, SameStart a b
    · have hnone : (none : Option ErrorType) ≠ some .archiveDuplicateError := nofun
      rw [if_neg (mt hduplicate.mp (not_not.mpr hsame))]
      constructor
      · rintro ⟨h, -⟩
        exact iff_of_true hsame (not_not.mp fun hnot => hnone (h.mpr hnot))
      · intro h
        exact ⟨iff_of_false hnone (not_not.mpr (h.mp hsame)), fun _ => rfl⟩
    · rw [if_pos (hduplicate.mpr hsame)]
      constructor
      · rintro ⟨h, -⟩
        exact iff_of_false hsame (h.mp rfl)
      · intro h
        have hnot := mt h.mpr hsame
        exact ⟨iff_of_true rfl hnot, fun hall => absurd hall hnot⟩

/-- A segment that is in two archives, with the same checksum. -/
def archiveGetStorageTwo : ArchiveGetStorage where
  list _ _ _ := .ok [walSegmentFmt 1 0 1 ++ '-' :: replicate 40 'a']
  fileExists _ _ _ := .ok false
  repoKey repoIdx := repoIdx + 1

/-- A repository with two archives. -/
def archiveGetCacheRepoTwo (archiveId archiveId' : Str) : ArchiveGetFindCacheRepo where
  repoIdx := 0
  cipherType := "none".toList
  cipherPassArchive := none
  archiveList := [⟨archiveId, []⟩, ⟨archiveId', []⟩]
  warnList := []

/-- Archive ids of one length. -/
theorem archiveGetFind_duplicate_exact_two :
    DuplicatesExact (walSegmentFmt 1 0 1)
      (matchingFiles archiveGetStorageTwo (walSegmentFmt 1 0 1)
        [archiveGetCacheRepoTwo "11-1".toList "11-2".toList])
      (reposFound archiveGetStorageTwo (walSegmentFmt 1 0 1)
        [archiveGetCacheRepoTwo "11-1".toList "11-2".toList] ⟨[], [], 0⟩).fileWarnList
      ⟨[], none, none, none, []⟩
      (archiveGetFind archiveGetStorageTwo true (walSegmentFmt 1 0 1) [] ⟨[], none, none, none, []⟩
        [archiveGetCacheRepoTwo "11-1".toList "11-2".toList]).1.2 := by
  refine (archiveGetFind_duplicate_exact ⟨walSegmentFmt 1 0 1, ?_, Or.inl rfl⟩ (Or.inl rfl) ?_ ?_ ?_ [] []).mpr ?_
  · unfold IsWalSegmentName
    decide +kernel
  · refine forall_mem_singleton.mpr ?_
    exact forall_mem_cons.mpr ⟨nofun, forall_mem_singleton.mpr nofun⟩
  · refine forall_mem_singleton.mpr (forall_mem_cons.mpr ⟨?_, forall_mem_singleton.mpr ?_⟩)
    · exact ⟨⟨1, 0, 0, 110000, 0⟩, by decide, by decide, by decide +kernel⟩
    · exact ⟨⟨2, 0, 0, 110000, 0⟩, by decide, by decide, by decide +kernel⟩
  · exact ⟨_, mem_singleton_self _, by unfold RepoReadable; decide +kernel⟩
  · unfold CopiesTold SameStart
    decide +kernel

/-- A copy of a segment is taken for a duplicate if the ids of the archives have
different lengths. -/
theorem archiveGetFind_copy :
    (archiveGetFind archiveGetStorageTwo true (walSegmentFmt 1 0 1) [] ⟨[], none, none, none, []⟩
      [archiveGetCacheRepoTwo "11-9".toList "11-10".toList]).1.2.errorType = some .archiveDuplicateError
      ∧ ∀ a ∈ matchingFiles archiveGetStorageTwo (walSegmentFmt 1 0 1)
          [archiveGetCacheRepoTwo "11-9".toList "11-10".toList],
        a.checksum (walSegmentFmt 1 0 1) = replicate 40 'a' := by
  decide +kernel

end PgxBackup
