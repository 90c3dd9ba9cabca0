import PgxBackup.Cursor
import PgxBackup.QueueNeed

/-!
# Finding WAL segments in the archive

The file of a WAL segment has the name of the segment with a checksum and the
extension of a compression. `walSegmentFind` looks for one segment with a listing
of its own, or for many with a listing that is kept from one segment to the next
and from which files are taken from the front.

With a listing that is kept only the first run of matching files is looked at.
An unrelated file that sorts between two files of a segment hides the second, and
there is no error about the duplicate.
-/

namespace PgxBackup

open List

def WAL_SEGMENT_PARTIAL_EXT : Str := ".partial".toList

/-- `COMPRESS_TYPE_REGEXP`, or nothing. -/
def compressExt : List Str :=
  [[], ".gz".toList, ".lz4".toList, ".zst".toList, ".xz".toList, ".bz2".toList]

/-- `-[0-f]{40}` and the extension of a compression, up to the end. -/
def isChecksumExt (s : Str) : Bool :=
  match s with
  | '-' :: s => decide ((s.take 40).length = 40) && (s.take 40).all (fun c => '0' ≤ c && c ≤ 'f')
      && decide (s.drop 40 ∈ compressExt)
  | _ => false

/-- `walIsPartial`. -/
def walIsPartial (walSegment : Str) : Bool := strEndsWith walSegment WAL_SEGMENT_PARTIAL_EXT

/-- The expression for the files of a segment. The dot of the extension of a
partial segment is not quoted and so it is any character. -/
def walSegmentFindMatch (walSegment file : Str) : Bool :=
  (strSubN walSegment 0 24).isPrefixOf file &&
    if walIsPartial walSegment then
      match file.drop 24 with
      | _ :: s => (WAL_SEGMENT_PARTIAL_EXT.drop 1).isPrefixOf s
          && isChecksumExt (s.drop (WAL_SEGMENT_PARTIAL_EXT.length - 1))
      | [] => false
    else isChecksumExt (file.drop 24)

/-- `WalSegmentFind`, as far as it changes. -/
structure WalSegmentFind where
  /-- Current list prefix. -/
  listPrefix : Option Str
  /-- List of found segments. -/
  list : Option (List Str)

def walSegmentFindNew : WalSegmentFind := ⟨none, none⟩

/-- The error about duplicates. -/
def walSegmentFindDuplicate (walSegment : Str) (matchList : List Str) : Error :=
  ⟨.archiveDuplicateError, "duplicates found in archive for WAL segment ".toList ++ walSegment
    ++ ": ".toList ++ intercalate ", ".toList matchList
    ++ "\nHINT: are multiple primaries archiving to this stanza?".toList⟩

/-- The error about a segment that is not found. -/
def walSegmentFindTimeout (walSegment : Str) (timeout : ℕ) : Error :=
  ⟨.archiveTimeoutError, "WAL segment ".toList ++ walSegment ++ " was not archived before the ".toList
    ++ Nat.toDigits 10 timeout ++ "ms timeout\n".toList
    ++ "HINT: check the archive_command to ensure that all options are correct (especially --stanza).\n".toList
    ++ "HINT: check the PostgreSQL server log for errors.\n".toList
    ++ "HINT: run the 'start' command if the stanza was previously stopped.".toList⟩

section Find

-- the files in the directories of the archive, by the prefix of the segments
variable (archive : Str → List Str)

/-- Get a list of all files in the directory, and of those that match when finding
a single segment. -/
def walSegmentFindLoad (single : Bool) (walSegment : Str) : List Str :=
  let files := archive (strSubN walSegment 0 16)
  strLstSort (if single then files.filter (walSegmentFindMatch walSegment) else files) .asc

/-- The list to search, which is loaded if there is none for the prefix. -/
def walSegmentFindList (single : Bool) (walSegment : Str) (this : WalSegmentFind) : List Str :=
  match this.list with
  | some list =>
    if this.listPrefix = some (strSubN walSegment 0 16) then list
    else walSegmentFindLoad archive single walSegment
  | none => walSegmentFindLoad archive single walSegment

/-- One round of `walSegmentFind`. -/
def walSegmentFindRound (single : Bool) (walSegment : Str) (this : WalSegmentFind) :
    Except Error (Option Str) × WalSegmentFind :=
  let list := walSegmentFindList archive single walSegment this
  let this := { this with listPrefix := some (strSubN walSegment 0 16) }
  -- remove list items that do not match, since filtering happened above only for a single segment
  let list := if single then list else list.dropWhile fun file => !walSegmentFindMatch walSegment file
  -- find matches at the beginning of the remaining list
  let matchList := if single then list else list.takeWhile (walSegmentFindMatch walSegment)
  -- error if there is more than one match
  if matchList.length > 1 then
    (.error (walSegmentFindDuplicate walSegment matchList), { this with list := none })
  else
    -- remove matching entries so list will be reloaded when empty
    let list := if single then list else list.dropWhile (walSegmentFindMatch walSegment)
    (.ok matchList.head?, { this with list := if single ∨ list = [] then none else some list })

/-- `walSegmentFind`, which tries again for as long as there is time left: as
many times as are given. -/
def walSegmentFind (single : Bool) (timeout : ℕ) (walSegment : Str) :
    ℕ → WalSegmentFind → Except Error (Option Str) × WalSegmentFind
  | more, this =>
    match walSegmentFindRound archive single walSegment this, more with
    | (.ok none, this), 0 =>
      (if timeout ≠ 0 then .error (walSegmentFindTimeout walSegment timeout) else .ok none, this)
    | (.ok none, this), more + 1 => walSegmentFind single timeout walSegment more this
    | result, _ => result

/-- `walSegmentFindOne`. -/
def walSegmentFindOne (timeout : ℕ) (walSegment : Str) (more : ℕ) : Except Error (Option Str) :=
  (walSegmentFind archive true timeout walSegment more walSegmentFindNew).1

/-- The results of requests one after the other, each with how many times it is
tried again. -/
def walSegmentFindAll (timeout : ℕ) :
    List (Str × ℕ) → WalSegmentFind → List (Except Error (Option Str))
  | [], _ => []
  | (walSegment, more) :: requests, this =>
    let (result, this) := walSegmentFind archive false timeout walSegment more this
    result :: walSegmentFindAll timeout requests this

end Find

/-! ## Agreement -/

/-- A segment that can be requested, which may be partial. -/
def IsWalSegmentRequest (walSegment : Str) : Prop :=
  ∃ name, IsWalSegmentName name ∧ (walSegment = name ∨ walSegment = name ++ WAL_SEGMENT_PARTIAL_EXT)

/-- The files in the directory of a segment, in order. -/
def walSegmentListing (archive : Str → List Str) (walSegment : Str) : List Str :=
  strLstSort (archive (strSubN walSegment 0 16)) .asc

def walSegmentMatches (archive : Str → List Str) (walSegment : Str) : List Str :=
  (walSegmentListing archive walSegment).filter (walSegmentFindMatch walSegment)

/-- What is to be found for a segment: its only file. -/
def walSegmentFound (archive : Str → List Str) (timeout : ℕ) (walSegment : Str) :
    Except Error (Option Str) :=
  match walSegmentMatches archive walSegment with
  | [] => if timeout ≠ 0 then .error (walSegmentFindTimeout walSegment timeout) else .ok none
  | [file] => .ok (some file)
  | matchList => .error (walSegmentFindDuplicate walSegment matchList)

/-- Requests that are found with a listing that is kept: the files of a segment
are adjacent, and the files of a partial segment are behind the only file of the
segment itself, if that is requested too. -/
def WalSegmentFindable (archive : Str → List Str) (requests : List Str) : Prop :=
  ∀ walSegment ∈ requests,
    Cursor.Adjacent (walSegmentFindMatch walSegment) (walSegmentListing archive walSegment)
      ∧ ∀ whole ∈ requests, walSegment = whole ++ WAL_SEGMENT_PARTIAL_EXT →
        ∀ file, walSegmentMatches archive whole = [file] →
          ∀ partialFile ∈ walSegmentMatches archive walSegment, file < partialFile

theorem filter_strLstSort (p : Str → Bool) (l : List Str) :
    strLstSort (l.filter p) .asc = (strLstSort l .asc).filter p := by
  have hperm : (strLstSort (l.filter p) .asc).Perm ((strLstSort l .asc).filter p) :=
    (perm_insertionSort _ _).trans ((perm_insertionSort _ l).symm.filter p)
  refine hperm.eq_of_pairwise (fun a b _ _ => le_antisymm) (pairwise_insertionSort _ _) ?_
  exact (pairwise_insertionSort _ l).filter p

def walSegmentFoundRound (archive : Str → List Str) (walSegment : Str) : Except Error (Option Str) :=
  if (walSegmentMatches archive walSegment).length > 1 then
    .error (walSegmentFindDuplicate walSegment (walSegmentMatches archive walSegment))
  else .ok (walSegmentMatches archive walSegment).head?

/-- **Trying again** makes no difference when every round finds the same. -/
theorem walSegmentFind_of_rounds {archive : Str → List Str} {single : Bool} {walSegment : Str}
    (timeout : ℕ) {before after : WalSegmentFind → Prop}
    (hround : ∀ this, before this → ∃ this',
      walSegmentFindRound archive single walSegment this = (walSegmentFoundRound archive walSegment, this')
        ∧ after this' ∧ (walSegmentMatches archive walSegment = [] → before this'))
    (more : ℕ) : ∀ {this : WalSegmentFind}, before this → ∃ this',
      walSegmentFind archive single timeout walSegment more this
        = (walSegmentFound archive timeout walSegment, this') ∧ after this' := by
  induction more with
  | zero =>
    intro this hbefore
    have ⟨this', heq, hafter, _⟩ := hround this hbefore
    refine ⟨this', ?_, hafter⟩
    unfold walSegmentFind walSegmentFound
    rw [heq]
    unfold walSegmentFoundRound
    cases walSegmentMatches archive walSegment with
    | nil => rfl
    | cons file files =>
      cases files with
      | nil => rfl
      | cons file' files => rfl
  | succ more ih =>
    intro this hbefore
    have ⟨this', heq, hafter, hagain⟩ := hround this hbefore
    unfold walSegmentFind
    rw [heq]
    unfold walSegmentFoundRound
    cases hmatches : walSegmentMatches archive walSegment with
    | nil => exact ih (hagain hmatches)
    | cons file files =>
      refine ⟨this', ?_, hafter⟩
      unfold walSegmentFound
      rw [hmatches]
      cases files with
      | nil => rfl
      | cons file' files => rfl

theorem walSegmentFindRound_single (archive : Str → List Str) (walSegment : Str)
    {this : WalSegmentFind} (hlist : this.list = none) :
    walSegmentFindRound archive true walSegment this =
      (walSegmentFoundRound archive walSegment, ⟨some (strSubN walSegment 0 16), none⟩) := by
  have hload : walSegmentFindList archive true walSegment this = walSegmentMatches archive walSegment := by
    unfold walSegmentFindList
    rw [hlist]
    exact filter_strLstSort _ _
  unfold walSegmentFindRound walSegmentFoundRound
  simp only [if_true, hload, true_or]
  split
  · rfl
  · rfl

/-- **A single segment** is found, however often it is tried. -/
theorem walSegmentFindOne_eq (archive : Str → List Str) (timeout : ℕ) (walSegment : Str) (more : ℕ) :
    walSegmentFindOne archive timeout walSegment more = walSegmentFound archive timeout walSegment := by
  have ⟨this, heq, _⟩ := @walSegmentFind_of_rounds archive true walSegment timeout
    (fun this => this.list = none) (fun _ => True)
    (fun this hlist => ⟨_, walSegmentFindRound_single archive walSegment hlist, trivial, fun _ => rfl⟩)
    more walSegmentFindNew rfl
  exact congrArg Prod.fst heq

/-- What is known about the list that is kept: what was taken from its listing is
not behind the only file of a request that is done. -/
def WalSegmentFindInv (archive : Str → List Str) (done : List Str) (this : WalSegmentFind) : Prop :=
  ∀ list, this.list = some list → ∃ whole ∈ done, ∃ dropped,
    this.listPrefix = some (strSubN whole 0 16) ∧ walSegmentListing archive whole = dropped ++ list
      ∧ ∀ file ∈ dropped, ∃ earlier ∈ done, strSubN earlier 0 16 = strSubN whole 0 16
        ∧ ∃ found, walSegmentMatches archive earlier = [found] ∧ file ≤ found

theorem IsWalSegmentRequest.name_eq {walSegment name : Str} (hname : IsWalSegmentName name)
    (h : walSegment = name ∨ walSegment = name ++ WAL_SEGMENT_PARTIAL_EXT) :
    walSegment.take 24 = name := by
  rcases h with rfl | rfl
  · exact take_of_length_le hname.1.le
  · exact take_left' hname.1

theorem walSegmentFindMatch_take {walSegment file : Str} (hrequest : IsWalSegmentRequest walSegment)
    (h : walSegmentFindMatch walSegment file = true) : file.take 24 = walSegment.take 24 := by
  have ⟨name, hname, hsegment⟩ := hrequest
  have htake := IsWalSegmentRequest.name_eq hname hsegment
  have hstart : (walSegment.take 24).isPrefixOf file = true := (Bool.and_eq_true_iff.mp h).1
  have hlength : (walSegment.take 24).length = 24 := by rw [htake, hname.1]
  have hprefix' := prefix_iff_eq_take.mp (List.isPrefixOf_iff_prefix.mp hstart)
  rw [hlength] at hprefix'
  exact hprefix'.symm

/-- The files of a later request are behind those of an earlier one, apart from
those of a partial segment and the segment itself. -/
theorem walSegmentFindMatch_lt {earlier later file file' : Str} (hearlier : IsWalSegmentRequest earlier)
    (hlater : IsWalSegmentRequest later) (hlt : earlier < later)
    (hne : later ≠ earlier ++ WAL_SEGMENT_PARTIAL_EXT)
    (hfile : walSegmentFindMatch earlier file = true)
    (hfile' : walSegmentFindMatch later file' = true) : file < file' := by
  refine lt_of_take_lt 24 ?_
  rw [walSegmentFindMatch_take hearlier hfile, walSegmentFindMatch_take hlater hfile']
  refine lt_of_le_of_ne (take_le_take 24 hlt.le) fun heq => ?_
  -- with the same name only the partial segment is later
  have ⟨name, hname, h⟩ := hearlier
  have ⟨name', hname', h'⟩ := hlater
  rw [IsWalSegmentRequest.name_eq hname h, IsWalSegmentRequest.name_eq hname' h'] at heq
  rw [← heq] at h'
  have hle : ¬ name ++ WAL_SEGMENT_PARTIAL_EXT < name := le_append_left
  rcases h with rfl | rfl
  · rcases h' with rfl | rfl
    · exact lt_irrefl _ hlt
    · exact hne rfl
  · rcases h' with rfl | rfl
    · exact hle hlt
    · exact lt_irrefl _ hlt

section Multi

variable {archive : Str → List Str} {requests done : List Str} {walSegment : Str} {this : WalSegmentFind}

section

variable (hinv : WalSegmentFindInv archive done this)
  (hrequests : ∀ request ∈ walSegment :: done, IsWalSegmentRequest request)
  (hlt : ∀ earlier ∈ done, earlier < walSegment)
include hinv hrequests hlt

/-- Nothing that is to be found was taken from the list that is kept. -/
theorem WalSegmentFindInv.dropped
    (hpart : ∀ whole ∈ done, walSegment = whole ++ WAL_SEGMENT_PARTIAL_EXT →
      ∀ file, walSegmentMatches archive whole = [file] →
        ∀ partialFile ∈ walSegmentMatches archive walSegment, file < partialFile) :
    ∃ dropped, walSegmentListing archive walSegment
        = dropped ++ walSegmentFindList archive false walSegment this
      ∧ (∀ file ∈ dropped, walSegmentFindMatch walSegment file = false)
      ∧ ∀ file ∈ dropped, ∃ earlier ∈ done, strSubN earlier 0 16 = strSubN walSegment 0 16
        ∧ ∃ found, walSegmentMatches archive earlier = [found] ∧ file ≤ found := by
  unfold walSegmentFindList
  cases hlist : this.list with
  | none => exact ⟨[], rfl, nofun, nofun⟩
  | some list =>
    have ⟨whole, hwhole, dropped, hdir, hlisting, hdropped⟩ := hinv list hlist
    by_cases hsame : this.listPrefix = some (strSubN walSegment 0 16)
    · rw [hsame] at hdir
      have hdir := (Option.some.inj hdir).symm
      have hlisting' : walSegmentListing archive walSegment = walSegmentListing archive whole := by
        unfold walSegmentListing
        rw [hdir]
      rw [hdir] at hdropped
      dsimp only
      rw [if_pos hsame, hlisting']
      refine ⟨dropped, hlisting, fun file hfile => ?_, hdropped⟩
      have ⟨earlier, hearlier, hdir', found, hfound, hle⟩ := hdropped file hfile
      have hmatch : found ∈ walSegmentMatches archive earlier := by
        rw [hfound]
        exact mem_cons_self
      by_contra hfile'
      have hfile' : walSegmentFindMatch walSegment file = true := by simpa using hfile'
      have hmem : file ∈ walSegmentMatches archive walSegment := by
        refine mem_filter.mpr ⟨?_, hfile'⟩
        rw [hlisting', hlisting]
        exact mem_append_left _ hfile
      refine hle.not_gt ?_
      by_cases hne : walSegment = earlier ++ WAL_SEGMENT_PARTIAL_EXT
      · exact hpart earlier hearlier hne found hfound file hmem
      · exact walSegmentFindMatch_lt (hrequests _ (mem_cons_of_mem _ hearlier))
          (hrequests _ mem_cons_self) (hlt _ hearlier) hne (mem_filter.mp hmatch).2 hfile'
    · dsimp only
      rw [if_neg hsame]
      exact ⟨[], rfl, nofun, nofun⟩

section

variable (hadjacent : Cursor.Adjacent (walSegmentFindMatch walSegment) (walSegmentListing archive walSegment))
  (hpart : ∀ whole ∈ done, walSegment = whole ++ WAL_SEGMENT_PARTIAL_EXT →
    ∀ file, walSegmentMatches archive whole = [file] →
      ∀ partialFile ∈ walSegmentMatches archive walSegment, file < partialFile)
include hadjacent hpart

/-- **One round with a list that is kept** finds what a single segment finds. -/
theorem WalSegmentFindInv.round :
    ∃ this', walSegmentFindRound archive false walSegment this
        = (walSegmentFoundRound archive walSegment, this')
      ∧ WalSegmentFindInv archive (walSegment :: done) this'
      ∧ (walSegmentMatches archive walSegment = [] → WalSegmentFindInv archive done this') := by
  have ⟨dropped, hlisting, hnone, hdropped⟩ := hinv.dropped hrequests hlt hpart
  have ⟨list, hlist⟩ : ∃ list, list = walSegmentFindList archive false walSegment this := ⟨_, rfl⟩
  rw [← hlist] at hlisting
  have hrun : Cursor.run (walSegmentFindMatch walSegment) list = walSegmentMatches archive walSegment := by
    rw [hlisting] at hadjacent
    rw [(hadjacent.of_append hnone).run_eq_filter]
    unfold walSegmentMatches
    rw [hlisting, filter_append, Cursor.filter_eq_nil hnone, nil_append]
  have hround : walSegmentFindRound archive false walSegment this =
      if (walSegmentMatches archive walSegment).length > 1 then
        (.error (walSegmentFindDuplicate walSegment (walSegmentMatches archive walSegment)),
          ⟨some (strSubN walSegment 0 16), none⟩)
      else (.ok (walSegmentMatches archive walSegment).head?,
        ⟨some (strSubN walSegment 0 16),
          if Cursor.rest (walSegmentFindMatch walSegment) list = [] then none
          else some (Cursor.rest (walSegmentFindMatch walSegment) list)⟩) := by
    rw [← hrun, hlist]
    unfold walSegmentFindRound Cursor.run Cursor.rest Cursor.skip
    simp
  have hnew : ∀ done, WalSegmentFindInv archive done ⟨some (strSubN walSegment 0 16), none⟩ :=
    fun _ _ h => absurd h nofun
  rw [hround]
  unfold walSegmentFoundRound
  split
  next hmany =>
    refine ⟨_, rfl, hnew _, fun hnil => ?_⟩
    rw [hnil] at hmany
    cases hmany
  next hone =>
    refine ⟨_, rfl, ?_, fun hnil => ?_⟩
    · intro list' hlist'
      have hrest : Cursor.rest (walSegmentFindMatch walSegment) list ≠ [] := by
        intro hnil
        rw [if_pos hnil] at hlist'
        cases hlist'
      rw [if_neg hrest] at hlist'
      have hrunne : Cursor.run (walSegmentFindMatch walSegment) list ≠ [] := by
        intro hnil
        refine hrest ?_
        unfold Cursor.rest
        rw [Cursor.skip_eq_nil_of_run hnil]
        rfl
      have ⟨found, hfound⟩ : ∃ found, walSegmentMatches archive walSegment = [found] := by
        rw [hrun] at hrunne
        exact length_eq_one_iff.mp (Nat.le_antisymm (not_lt.mp hone)
          (length_pos_iff.mpr hrunne))
      have hsorted : list.Pairwise (· ≤ ·) := by
        have hall : (walSegmentListing archive walSegment).Pairwise (· ≤ ·) :=
          pairwise_insertionSort _ _
        rw [hlisting] at hall
        exact (pairwise_append.mp hall).2.1
      refine ⟨walSegment, mem_cons_self,
        dropped ++ Cursor.passed (walSegmentFindMatch walSegment) list, rfl, ?_, fun file hfile => ?_⟩
      · rw [← Option.some.inj hlist', append_assoc, Cursor.passed_append_rest, hlisting]
      · rcases mem_append.mp hfile with hfile | hfile
        · have ⟨earlier, hearlier, h⟩ := hdropped file hfile
          exact ⟨earlier, mem_cons_of_mem _ hearlier, h⟩
        · have ⟨last, hlast, hle⟩ := Cursor.le_run_of_mem_passed hsorted hrunne hfile
          rw [hrun, hfound, mem_singleton] at hlast
          exact ⟨walSegment, mem_cons_self, rfl, found, hfound, hlast ▸ hle⟩
    · have hrest : Cursor.rest (walSegmentFindMatch walSegment) list = [] := by
        unfold Cursor.rest
        rw [Cursor.skip_eq_nil_of_run (hrun.trans hnil)]
        rfl
      rw [hrest, if_pos rfl]
      exact hnew _

/-- **One request with a list that is kept**, however often it is tried. -/
theorem WalSegmentFindInv.find (timeout more : ℕ) :
    ∃ this', walSegmentFind archive false timeout walSegment more this
        = (walSegmentFound archive timeout walSegment, this')
      ∧ WalSegmentFindInv archive (walSegment :: done) this' :=
  walSegmentFind_of_rounds timeout
    (fun _ hinv => hinv.round hrequests hlt hadjacent hpart) more hinv

end

end

end Multi

theorem walSegmentFindAll_of_inv {archive : Str → List Str} {all : List Str}
    (hfindable : WalSegmentFindable archive all)
    (hall : ∀ request ∈ all, IsWalSegmentRequest request) (timeout : ℕ) (requests : List (Str × ℕ)) :
    ∀ {done : List Str} {this : WalSegmentFind}, WalSegmentFindInv archive done this →
      done ⊆ all → requests.map Prod.fst ⊆ all →
      (∀ earlier ∈ done, ∀ request ∈ requests, earlier < request.1) →
      (requests.map Prod.fst).Pairwise (· < ·) →
      walSegmentFindAll archive timeout requests this
        = requests.map fun request => walSegmentFound archive timeout request.1 := by
  induction requests with
  | nil => exact fun _ _ _ _ _ => rfl
  | cons request requests ih =>
    intro done this hinv hdone hsub hlt hsorted
    rw [map_cons, cons_subset] at hsub
    rw [map_cons, pairwise_cons] at hsorted
    have hstep := hfindable request.1 hsub.1
    have hrequests : ∀ r ∈ request.1 :: done, IsWalSegmentRequest r := by
      intro r hr
      rcases mem_cons.mp hr with rfl | hr
      · exact hall _ hsub.1
      · exact hall _ (hdone hr)
    have ⟨this', hfind, hinv'⟩ := hinv.find hrequests
      (fun earlier hearlier => hlt earlier hearlier request mem_cons_self) hstep.1
      (fun whole hwhole => hstep.2 whole (hdone hwhole)) timeout request.2
    have hnext : ∀ earlier ∈ request.1 :: done, ∀ next ∈ requests, earlier < next.1 := by
      intro earlier hearlier next hnext
      rcases mem_cons.mp hearlier with rfl | hearlier
      · exact hsorted.1 _ (mem_map_of_mem hnext)
      · exact hlt _ hearlier _ (mem_cons_of_mem _ hnext)
    unfold walSegmentFindAll
    rw [hfind, map_cons]
    exact congrArg (walSegmentFound archive timeout request.1 :: ·)
      (ih hinv' (cons_subset.mpr ⟨hsub.1, hdone⟩) hsub.2 hnext hsorted.2)

/-- **A list that is kept finds what single segments find**, in every run of
requests in ascending order whose files are adjacent, also after requests that
were missing or had duplicates and however often each was tried. -/
theorem walSegmentFindAll_eq_one {archive : Str → List Str} {requests : List (Str × ℕ)}
    (hall : ∀ request ∈ requests, IsWalSegmentRequest request.1)
    (hsorted : (requests.map Prod.fst).Pairwise (· < ·))
    (hfindable : WalSegmentFindable archive (requests.map Prod.fst)) (timeout more : ℕ) :
    walSegmentFindAll archive timeout requests walSegmentFindNew
      = requests.map fun request => walSegmentFindOne archive timeout request.1 more := by
  have hrequests : ∀ request ∈ requests.map Prod.fst, IsWalSegmentRequest request := by
    intro request hrequest
    have ⟨p, hp, heq⟩ := mem_map.mp hrequest
    rw [← heq]
    exact hall p hp
  rw [walSegmentFindAll_of_inv hfindable hrequests timeout requests
    (fun _ h => absurd h nofun : WalSegmentFindInv archive [] walSegmentFindNew)
    (nil_subset _) (List.Subset.refl _) nofun hsorted]
  exact map_congr_left fun request _ => (walSegmentFindOne_eq archive timeout request.1 more).symm

/-- Two files of a segment and one that is being written between them. -/
def walSegmentFindSample (segmentPrefix : Str) : List Str :=
  if segmentPrefix = "0000000100000000".toList then
    [walSegmentFmt 1 0 1 ++ '-' :: replicate 40 'a' ++ ".gz".toList,
      walSegmentFmt 1 0 1 ++ '-' :: replicate 40 'a' ++ ".gz.pgbackrest.tmp".toList,
      walSegmentFmt 1 0 1 ++ '-' :: replicate 40 'b' ++ ".gz".toList,
      walSegmentFmt 1 0 2 ++ '-' :: replicate 40 'c' ++ ".gz".toList]
  else []

/-- A run of two requests, the first of which is missing. -/
theorem walSegmentFindAll_eq_one_missing :
    walSegmentFindAll walSegmentFindSample 0 [(walSegmentFmt 1 0 0, 1), (walSegmentFmt 1 0 2, 0)]
        walSegmentFindNew
      = [(walSegmentFmt 1 0 0, 1), (walSegmentFmt 1 0 2, 0)].map fun request =>
        walSegmentFindOne walSegmentFindSample 0 request.1 3 := by
  refine walSegmentFindAll_eq_one (fun request hrequest => ⟨request.1, ?_, Or.inl rfl⟩)
    (by decide +kernel) (fun walSegment hsegment => ⟨?_, ?_⟩) 0 3
  · revert request
    unfold IsWalSegmentName
    decide +kernel
  · revert walSegment
    decide +kernel
  · intro whole hwhole heq
    exact absurd heq (by revert walSegment whole; decide +kernel)

/-- The second file of the segment is hidden, and no duplicates are found. -/
theorem walSegmentFindAll_hidden :
    walSegmentFindAll walSegmentFindSample 0 [(walSegmentFmt 1 0 1, 0)] walSegmentFindNew
      ≠ [walSegmentFindOne walSegmentFindSample 0 (walSegmentFmt 1 0 1) 0] := by
  decide +kernel

end PgxBackup
