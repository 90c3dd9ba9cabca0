import Mathlib.Data.List.Chain
import PgxBackup.BinarySearch
import PgxBackup.ExpireArchive
import PgxBackup.Manifest
import PgxBackup.Pattern
import PgxBackup.StrPath

/-!
# Removing unlogged relations from the manifest

A new manifest lists every file of the cluster. PostgreSQL resets an unlogged
relation after recovery, so there is no need to back it up: when the list is
complete and sorted, the files of a relation that has an `_init` fork are
removed from it.

Whether a relation is unlogged is looked up for its first file and remembered
for the files that follow. It is remembered under the number of the relation,
which says nothing about the directory. The last relation of one directory and
the first one of the next may have the same number.
-/

namespace PgxBackup

open List Pattern

/-! ## Searching a sorted list -/

/-- The file of a name in the sorted list (`lstFind` with `lstComparatorStr`). -/
def manifestFileFind (fileList : List ManifestFile) (name : Str) : Option ℕ :=
  BinarySearch.bsearch (fun file => strCmp name file.name) fileList

/-- `manifestFileExists`. -/
def manifestFileExists (fileList : List ManifestFile) (name : Str) : Bool :=
  (manifestFileFind fileList name).isSome

/-- `manifestFileRemove`. -/
def manifestFileRemove (fileList : List ManifestFile) (name : Str) : Except Error (List ManifestFile) :=
  match manifestFileFind fileList name with
  | none => .error ⟨.assertError, "unable to remove '".toList ++ name ++ "' from manifest file list".toList⟩
  | some idx => .ok (fileList.eraseIdx idx)

/-! ## Names of relations -/

/-- `[0-9]+`. -/
def numberExp : Pattern Char := many Char.isDigit

/-- A string that is put into an expression as it is. A dot in it stands for
any character. -/
def strExp (s : Str) : Pattern Char := ones (s.map fun c d => c == '.' || d == c)

/-- The fork and the segment in `RELATION_EXP`. -/
def relationTailExp : Pattern Char :=
  seqs
    [opt (seq (lit "_".toList) (alt (lit "fsm".toList) (lit "vm".toList))),
     opt (seq (lit ".".toList) numberExp)]

/-- `RELATION_EXP`. -/
def RELATION_EXP : Pattern Char := seq numberExp relationTailExp

/-- `DB_PATH_EXP`. -/
def DB_PATH_EXP (tablespaceId : Str) : Pattern Char :=
  alt
    (seq (lit "pg_data/".toList) (alt (lit "global".toList) (seq (lit "base/".toList) numberExp)))
    (seqs [lit "pg_tblspc/".toList, numberExp, lit "/".toList, strExp tablespaceId, lit "/".toList, numberExp])

/-- The path of a version in a tablespace (`pgTablespaceId`). -/
def pgTablespaceId (pgVersion pgCatalogVersion : ℕ) : Str :=
  "PG_".toList ++ pgVersionToStr pgVersion ++ '_' :: Nat.toDigits 10 pgCatalogVersion

/-- The expression of a file of a relation. It never matches an `_init` fork. -/
def relationExp (pgVersion pgCatalogVersion : ℕ) : Pattern Char :=
  seq (DB_PATH_EXP (pgTablespaceId pgVersion pgCatalogVersion)) (seq (lit "/".toList) RELATION_EXP)

/-- The numeric part at the start of a file name. -/
def relationDigits (fileName : Str) : Str := fileName.takeWhile Char.isDigit

/-- The numeric part as it is stored in `relationFileId`, which is large enough
for a 64-bit unsigned integer and no more. -/
def relationFileId (fileName : Str) : Option Str :=
  if (relationDigits fileName).length < 21 then some (relationDigits fileName) else none

/-- The name of the `_init` fork of a relation. -/
def relationInit (filePathName relationFileId : Str) : Str :=
  filePathName.take (filePathName.length - (strBaseZ filePathName).length) ++ relationFileId
    ++ "_init".toList

/-! ## The loop -/

/-- The loop of `manifestNewBuild` that removes unlogged relations, with at most
`fuel` passes. It has no result if `relationFileId` is written past its end. -/
def manifestUnloggedLoop (relationExp : Pattern Char) :
    ℕ → List ManifestFile → ℕ → Str → Bool → Option (Except Error (List ManifestFile))
  | 0, _, _, _, _ => none
  | fuel + 1, fileList, fileIdx, lastRelationFileId, lastRelationFileIdUnlogged =>
    match fileList[fileIdx]? with
    | none => some (.ok fileList)
    | some file =>
      -- if this file looks like a relation
      if relationExp.test file.name then
        match relationFileId (strBaseZ file.name) with
        | none => none
        | some relationFileId =>
          -- the last relation is stored so it does not need to be found every time
          let lastRelationFileIdUnlogged :=
            if lastRelationFileId ≠ relationFileId then
              manifestFileExists fileList (relationInit file.name relationFileId)
            else lastRelationFileIdUnlogged
          -- if relation is unlogged then remove it
          if lastRelationFileIdUnlogged then
            match manifestFileRemove fileList file.name with
            | .error e => some (.error e)
            | .ok fileList =>
              manifestUnloggedLoop relationExp fuel fileList fileIdx relationFileId lastRelationFileIdUnlogged
          else
            manifestUnloggedLoop relationExp fuel fileList (fileIdx + 1) relationFileId
              lastRelationFileIdUnlogged
      else
        manifestUnloggedLoop relationExp fuel fileList (fileIdx + 1) lastRelationFileId
          lastRelationFileIdUnlogged

/-- The removal of unlogged relations in `manifestNewBuild`. -/
def manifestUnloggedRemove (pgVersion pgCatalogVersion fuel : ℕ) (fileList : List ManifestFile) :
    Option (Except Error (List ManifestFile)) :=
  manifestUnloggedLoop (relationExp pgVersion pgCatalogVersion) fuel fileList 0 [] false

/-! ## What a relation name is made of -/

/-- The fork and the segment have no slash, do not start with a digit and are
not those of an `_init` fork. -/
theorem relationTail_spec {tail : Str} (h : Spells relationTailExp tail) :
    '/' ∉ tail ∧ (∀ c ∈ tail.head?, c.isDigit = false) ∧ tail ≠ "_init".toList := by
  obtain ⟨fork, w, hfork, ⟨segment, w', hsegment, rfl, rfl⟩, rfl⟩ := h
  have hforks : fork = [] ∨ fork = "_fsm".toList ∨ fork = "_vm".toList := by
    rcases hfork with rfl | ⟨u, v, hu, hv, rfl⟩
    · exact .inl rfl
    · rw [spells_lit] at hu
      subst hu
      rcases hv with hv | hv
      · exact .inr (.inl (by rw [spells_lit.mp hv]; rfl))
      · exact .inr (.inr (by rw [spells_lit.mp hv]; rfl))
  have hsegments : segment = [] ∨ ∃ digits : Str, (∀ c ∈ digits, c.isDigit = true) ∧ segment = '.' :: digits := by
    rcases hsegment with rfl | ⟨u, digits, hu, hdigits, rfl⟩
    · exact .inl rfl
    · rw [spells_lit] at hu
      subst hu
      exact .inr ⟨digits, hdigits.2, rfl⟩
  have hslash (digits : Str) (hdigits : ∀ c ∈ digits, c.isDigit = true) : '/' ∉ digits :=
    fun hmem => absurd (hdigits _ hmem) (by decide)
  rcases hforks with rfl | rfl | rfl <;> rcases hsegments with rfl | ⟨digits, hdigits, rfl⟩
  · exact ⟨by decide, by decide, by decide⟩
  · refine ⟨?_, by simp, by simp⟩
    simpa using hslash digits hdigits
  · exact ⟨by decide, by decide, by decide⟩
  · refine ⟨?_, by simp, by simp⟩
    simpa using hslash digits hdigits
  · exact ⟨by decide, by decide, by decide⟩
  · refine ⟨?_, by simp, by simp⟩
    simpa using hslash digits hdigits

theorem relationDigits_append {id tail : Str} (hid : ∀ c ∈ id, c.isDigit = true)
    (htail : ∀ c ∈ tail.head?, c.isDigit = false) : relationDigits (id ++ tail) = id := by
  unfold relationDigits
  rw [takeWhile_append_of_pos hid]
  cases tail with
  | nil => exact append_nil id
  | cons c tail =>
    rw [takeWhile_cons_of_neg (by rw [htail c rfl]; decide), append_nil]

/-- A directory, a number that is not empty, and a fork and a segment. -/
structure RelationName (name dir id tail : Str) : Prop where
  eq : name = dir ++ '/' :: (id ++ tail)
  ne_nil : id ≠ []
  digits : ∀ c ∈ id, c.isDigit = true
  tail : Spells relationTailExp tail

section RelationName

variable {name dir id tail : Str}

section

variable (h : RelationName name dir id tail)
include h

theorem RelationName.slash {w : Str} (hw : '/' ∉ w) : '/' ∉ id ++ w := by
  rw [mem_append, not_or]
  exact ⟨fun hmem => absurd (h.digits _ hmem) (by decide), hw⟩

theorem RelationName.strBaseZ : strBaseZ name = id ++ tail := by
  rw [h.eq]
  exact strBaseZ_append dir (h.slash (relationTail_spec h.tail).1)

theorem RelationName.relationDigits : relationDigits (PgxBackup.strBaseZ name) = id := by
  rw [h.strBaseZ]
  exact relationDigits_append h.digits (relationTail_spec h.tail).2.1

/-- **The `_init` fork has the same directory and the same number.** -/
theorem RelationName.relationInit :
    relationInit name id = dir ++ '/' :: (id ++ "_init".toList) := by
  have hlength : name.length - (id ++ tail).length = (dir ++ ['/']).length := by
    rw [h.eq]
    simp only [length_append, length_cons, length_nil]
    omega
  have hsplit : name = (dir ++ ['/']) ++ (id ++ tail) := by rw [h.eq, append_assoc]; rfl
  unfold PgxBackup.relationInit
  rw [h.strBaseZ, hlength, hsplit, take_left, append_assoc, append_assoc]
  rfl

end

end RelationName

section Relation

variable {pgVersion pgCatalogVersion : ℕ} {name : Str}

section

variable (h : (relationExp pgVersion pgCatalogVersion).test name = true)
include h

theorem exists_relationName : ∃ dir id tail, RelationName name dir id tail := by
  obtain ⟨dir, w, -, ⟨slash, w', hslash, ⟨id, tail, ⟨hne, hdigits⟩, htail, rfl⟩, rfl⟩, rfl⟩ := test_iff.mp h
  rw [spells_lit] at hslash
  subst hslash
  exact ⟨dir, id, tail, rfl, hne, hdigits, htail⟩

/-- The expression never matches an `_init` fork. -/
theorem not_test_relationInit :
    (relationExp pgVersion pgCatalogVersion).test (relationInit name (relationDigits (strBaseZ name)))
      = false := by
  rw [Bool.eq_false_iff]
  intro htest
  obtain ⟨dir, id, tail, hname⟩ := exists_relationName h
  obtain ⟨dir', id', tail', hinit⟩ := exists_relationName htest
  rw [hname.relationDigits, hname.relationInit] at hinit
  have hslash : '/' ∉ "_init".toList := by decide
  have hbase : id' ++ tail' = id ++ "_init".toList := by
    rw [← hinit.strBaseZ, strBaseZ_append dir (hname.slash hslash)]
  have hid : id' = id := by
    rw [← relationDigits_append hinit.digits (relationTail_spec hinit.tail).2.1, hbase,
      relationDigits_append hname.digits (by decide)]
  rw [hid] at hbase
  exact (relationTail_spec hinit.tail).2.2 (append_cancel_left hbase)

end

end Relation

/-! ## The sorted list -/

def SortedByName (fileList : List ManifestFile) : Prop :=
  fileList.Pairwise (fun f g => f.name ≤ g.name)

section Sorted

variable {fileList : List ManifestFile} {name : Str}

theorem SortedByName.search (h : SortedByName fileList) (name : Str) :
    BinarySearch.Sorted (fun file : ManifestFile => strCmp name file.name) fileList := by
  refine h.imp fun {f g} hle => ⟨fun hlt => ?_, fun hlt => ?_⟩
  · exact strCmp_neg.mpr (lt_of_lt_of_le (strCmp_neg.mp hlt) hle)
  · exact strCmp_pos.mpr (lt_of_le_of_lt hle (strCmp_pos.mp hlt))

theorem manifestFileExists_iff (h : SortedByName fileList) :
    manifestFileExists fileList name = true ↔ ∃ file ∈ fileList, file.name = name := by
  unfold manifestFileExists manifestFileFind
  rw [BinarySearch.bsearch_isSome_iff (h.search name)]
  refine exists_congr fun file => and_congr_right fun _ => ?_
  rw [strCmp_eq_zero, eq_comm]

theorem manifestFileRemove_of_mem (h : SortedByName fileList) {file : ManifestFile} (hmem : file ∈ fileList) :
    ∃ idx other, fileList[idx]? = some other ∧ other.name = file.name ∧
      manifestFileRemove fileList file.name = .ok (fileList.eraseIdx idx) := by
  have hexists : (manifestFileFind fileList file.name).isSome = true :=
    (manifestFileExists_iff h).mpr ⟨file, hmem, rfl⟩
  obtain ⟨idx, hidx⟩ := Option.isSome_iff_exists.mp hexists
  obtain ⟨other, hother, hequal⟩ := BinarySearch.bsearch_some hidx
  refine ⟨idx, other, hother, (strCmp_eq_zero.mp hequal).symm, ?_⟩
  unfold manifestFileRemove
  rw [hidx]

/-- Removing a file of another name does not change whether a file exists. -/
theorem exists_eraseIdx {idx : ℕ} {other : ManifestFile} (hother : fileList[idx]? = some other)
    (hne : other.name ≠ name) :
    (∃ file ∈ fileList.eraseIdx idx, file.name = name) ↔ ∃ file ∈ fileList, file.name = name := by
  constructor
  · rintro ⟨file, hmem, hname⟩
    exact ⟨file, mem_of_mem_eraseIdx hmem, hname⟩
  · rintro ⟨file, hmem, hname⟩
    refine ⟨file, ?_, hname⟩
    obtain ⟨i, hi, rfl⟩ := getElem_of_mem hmem
    refine mem_eraseIdx_iff_getElem.mpr ⟨i, hi, fun heq => ?_, rfl⟩
    subst heq
    rw [getElem?_eq_getElem hi, Option.some.injEq] at hother
    exact hne (hother ▸ hname)

end Sorted

/-! ## What the loop keeps -/

section Kept

variable (exp : Pattern Char) (init : Str → Bool)

/-- Is the relation of a file treated as unlogged? -/
def relationUnlogged (last : Str) (unlogged : Bool) (name id : Str) : Bool :=
  if last ≠ id then init (relationInit name id) else unlogged

/-- What the loop keeps of the files it has not reached, if `init` says which
names are in the list. -/
def relationKept : Str → Bool → List ManifestFile → Option (List ManifestFile)
  | _, _, [] => some []
  | last, unlogged, file :: files =>
    if exp.test file.name then
      match relationFileId (strBaseZ file.name) with
      | none => none
      | some id =>
        let unlogged := relationUnlogged init last unlogged file.name id
        if unlogged then relationKept id unlogged files
        else (relationKept id unlogged files).map (file :: ·)
    else (relationKept last unlogged files).map (file :: ·)

variable {exp init} {last : Str} {unlogged : Bool} {file : ManifestFile} {files kept : List ManifestFile}

theorem relationKept_other (h : exp.test file.name = false) :
    relationKept exp init last unlogged (file :: files)
      = (relationKept exp init last unlogged files).map (file :: ·) := by
  rw [relationKept, h]
  rfl

section

variable (h : exp.test file.name = true)
include h

theorem relationKept_long (hid : relationFileId (strBaseZ file.name) = none) :
    relationKept exp init last unlogged (file :: files) = none := by
  rw [relationKept, if_pos h, hid]

theorem relationKept_relation {id : Str} (hid : relationFileId (strBaseZ file.name) = some id)
    {flag : Bool} (hflag : relationUnlogged init last unlogged file.name id = flag) :
    relationKept exp init last unlogged (file :: files)
      = if flag then relationKept exp init id flag files
        else (relationKept exp init id flag files).map (file :: ·) := by
  rw [relationKept, if_pos h, hid]
  show (if relationUnlogged init last unlogged file.name id then _ else _) = _
  rw [hflag]

theorem relationKept_again (hid : relationFileId (strBaseZ file.name) = some last) :
    relationKept exp init last true (file :: files) = relationKept exp init last true files := by
  rw [relationKept_relation h hid (if_neg (not_not.mpr rfl)), if_pos rfl]

end

theorem relationKept_sublist (h : relationKept exp init last unlogged files = some kept) :
    kept.Sublist files := by
  induction files generalizing last unlogged kept with
  | nil =>
    rw [← Option.some.inj h]
  | cons file files ih =>
    cases hexp : exp.test file.name with
    | false =>
      rw [relationKept_other hexp] at h
      obtain ⟨rest, hrest, rfl⟩ := Option.map_eq_some_iff.mp h
      exact (ih hrest).cons_cons file
    | true =>
      cases hid : relationFileId (strBaseZ file.name) with
      | none =>
        rw [relationKept_long hexp hid] at h
        cases h
      | some id =>
        rw [relationKept_relation hexp hid rfl] at h
        split at h
        · exact (ih h).cons file
        · obtain ⟨rest, hrest, rfl⟩ := Option.map_eq_some_iff.mp h
          exact (ih hrest).cons_cons file

section

variable (h : exp.test file.name = true) (hid : relationFileId (strBaseZ file.name) = some last)
  (hsorted : SortedByName (file :: files))
include h hid hsorted

/-- Of files with the same name as an unlogged one it does not matter which one
is removed. -/
theorem relationKept_eraseIdx {idx : ℕ} {other : ManifestFile}
    (hother : (file :: files)[idx]? = some other) (hname : other.name = file.name) :
    relationKept exp init last true ((file :: files).eraseIdx idx)
      = relationKept exp init last true files := by
  induction idx generalizing file files with
  | zero => rfl
  | succ idx ih =>
    cases files with
    | nil => cases hother
    | cons file' files =>
      rw [SortedByName, pairwise_cons] at hsorted
      have hmem : other ∈ file' :: files := mem_of_getElem? hother
      have hfile' : file'.name = file.name := by
        refine le_antisymm ?_ (hsorted.1 _ mem_cons_self)
        rw [← hname]
        rcases mem_cons.mp hmem with rfl | hmem
        · exact le_rfl
        · exact (pairwise_cons.mp hsorted.2).1 _ hmem
      have hexp' : exp.test file'.name = true := hfile' ▸ h
      have hid' : relationFileId (strBaseZ file'.name) = some last := hfile' ▸ hid
      rw [eraseIdx_cons_succ, relationKept_again h hid,
        ih hexp' hid' hsorted.2 hother (hname.trans hfile'.symm), relationKept_again hexp' hid']

/-- No file that has the name of an unlogged one is kept behind it. -/
theorem not_mem_relationKept (hkept : relationKept exp init last true files = some kept) :
    ∀ f ∈ kept, f.name ≠ file.name := by
  induction files with
  | nil =>
    rw [← Option.some.inj hkept]
    exact fun f hf => absurd hf not_mem_nil
  | cons file' files ih =>
    rw [SortedByName, pairwise_cons] at hsorted
    have htail := (pairwise_cons.mp hsorted.2).1
    by_cases hname : file'.name = file.name
    · rw [relationKept_again (hname ▸ h) (hname ▸ hid)] at hkept
      refine ih ?_ hkept
      exact pairwise_cons.mpr ⟨fun f hf => hname ▸ htail f hf, (pairwise_cons.mp hsorted.2).2⟩
    · intro f hf
      have hlt : file.name < file'.name :=
        lt_of_le_of_ne (hsorted.1 _ mem_cons_self) (Ne.symm hname)
      rcases mem_cons.mp ((relationKept_sublist hkept).subset hf) with rfl | hf
      · exact hlt.ne'
      · exact (lt_of_lt_of_le hlt (htail f hf)).ne'

end

end Kept

/-! ## The loop keeps these files -/

section Loop

variable {pgVersion pgCatalogVersion : ℕ} {init : Str → Bool} {last : Str} {unlogged : Bool}
  {done rest files : List ManifestFile} {file : ManifestFile} {id : Str}

theorem relationFileId_eq {fileName : Str} (h : relationFileId fileName = some id) :
    relationDigits fileName = id := by
  unfold relationFileId at h
  split at h
  · exact Option.some.inj h
  · cases h

/-- What holds when the loop has passed the files of `done` and is about to look
at those of `rest`. The list still has the names that are looked up, and a file
that is passed and has the same name as one to come is not unlogged. -/
structure UnloggedInv (exp : Pattern Char) (init : Str → Bool) (done rest : List ManifestFile)
    (last : Str) (unlogged : Bool) : Prop where
  init : ∀ name, exp.test name = false → (init name = true ↔ ∃ file ∈ done ++ rest, file.name = name)
  sorted : SortedByName (done ++ rest)
  same : ∀ f ∈ done, ∀ g ∈ rest, f.name = g.name → exp.test f.name = true →
    relationDigits (strBaseZ f.name) = last ∧ unlogged = false

theorem UnloggedInv.name_eq {exp : Pattern Char} (h : UnloggedInv exp init done (file :: files) last unlogged)
    {f g : ManifestFile} (hf : f ∈ done) (hg : g ∈ files) (hname : f.name = g.name) : f.name = file.name := by
  have hpair := pairwise_append.mp h.sorted
  refine le_antisymm (hpair.2.2 f hf file mem_cons_self) ?_
  rw [hname]
  exact (pairwise_cons.mp hpair.2.1).1 g hg

theorem UnloggedInv.pass {exp : Pattern Char} (h : UnloggedInv exp init done (file :: files) last unlogged)
    {last' : Str} {unlogged' : Bool}
    (hlast : exp.test file.name = true → relationDigits (strBaseZ file.name) = last' ∧ unlogged' = false)
    (hother : exp.test file.name = false → last' = last ∧ unlogged' = unlogged) :
    UnloggedInv exp init (done ++ [file]) files last' unlogged' := by
  have happend : done ++ [file] ++ files = done ++ file :: files := by rw [append_assoc]; rfl
  refine ⟨?_, ?_, ?_⟩
  · rw [happend]
    exact h.init
  · rw [happend]
    exact h.sorted
  · intro f hf g hg hname htest
    rcases mem_append.mp hf with hf | hf
    · have heq := h.name_eq hf hg hname
      rw [heq]
      exact hlast (heq ▸ htest)
    · rw [mem_singleton] at hf
      subst hf
      exact hlast htest

/-- Whether the relation is unlogged is looked up in the list. -/
theorem UnloggedInv.lookup
    (h : UnloggedInv (relationExp pgVersion pgCatalogVersion) init done rest last unlogged)
    {name : Str} (htest : (relationExp pgVersion pgCatalogVersion).test name = true)
    (hid : relationFileId (strBaseZ name) = some id) :
    (if last ≠ id then manifestFileExists (done ++ rest) (relationInit name id) else unlogged)
      = relationUnlogged init last unlogged name id := by
  congr 1
  rw [← relationFileId_eq hid, Bool.eq_iff_iff, manifestFileExists_iff h.sorted,
    h.init _ (not_test_relationInit htest)]

/-- The file at hand is removed, or one of the same name that is still to come. -/
theorem UnloggedInv.remove {exp : Pattern Char} (h : UnloggedInv exp init done (file :: files) last unlogged)
    (htest : exp.test file.name = true) (hid : relationFileId (strBaseZ file.name) = some id)
    (hflag : relationUnlogged init last unlogged file.name id = true) :
    ∃ idx other, (file :: files)[idx]? = some other ∧ other.name = file.name ∧
      manifestFileRemove (done ++ file :: files) file.name = .ok (done ++ (file :: files).eraseIdx idx) ∧
      UnloggedInv exp init done ((file :: files).eraseIdx idx) id true := by
  -- No file that is passed has this name, or it would have been unlogged too.
  have hnone : ∀ f ∈ done, f.name ≠ file.name := by
    intro f hf hname
    obtain ⟨hlast, hfalse⟩ := h.same f hf file mem_cons_self hname (hname ▸ htest)
    rw [hname, relationFileId_eq hid] at hlast
    unfold relationUnlogged at hflag
    rw [if_neg (not_not.mpr hlast.symm), hfalse] at hflag
    cases hflag
  obtain ⟨idx, other, hother, hname, hremove⟩ :=
    manifestFileRemove_of_mem h.sorted (mem_append_right done mem_cons_self)
  have hle : done.length ≤ idx := by
    refine not_lt.mp fun hlt => ?_
    rw [getElem?_append_left hlt] at hother
    exact hnone other (mem_of_getElem? hother) hname
  have herase : (done ++ file :: files).eraseIdx idx = done ++ (file :: files).eraseIdx (idx - done.length) :=
    eraseIdx_append_of_length_le hle _
  refine ⟨idx - done.length, other, ?_, hname, herase ▸ hremove, ?_, ?_, ?_⟩
  · rwa [getElem?_append_right hle] at hother
  · intro name hname'
    rw [h.init name hname', ← herase]
    refine (exists_eraseIdx hother fun heq => ?_).symm
    rw [← heq, hname, htest] at hname'
    cases hname'
  · rw [← herase]
    exact h.sorted.sublist (eraseIdx_sublist _ _)
  · intro f hf g hg hfg _
    refine absurd ?_ (hnone f hf)
    rcases mem_cons.mp (mem_of_mem_eraseIdx hg) with rfl | hg
    · exact hfg
    · exact h.name_eq hf hg hfg

/-- **The loop keeps exactly what the walk over the files keeps.** -/
theorem manifestUnloggedLoop_eq {fuel : ℕ} (hfuel : rest.length < fuel)
    (h : UnloggedInv (relationExp pgVersion pgCatalogVersion) init done rest last unlogged) :
    manifestUnloggedLoop (relationExp pgVersion pgCatalogVersion) fuel (done ++ rest) done.length last unlogged
      = (relationKept (relationExp pgVersion pgCatalogVersion) init last unlogged rest).map
        (fun kept => .ok (done ++ kept)) := by
  induction fuel generalizing done rest last unlogged with
  | zero => exact absurd hfuel (Nat.not_lt_zero _)
  | succ fuel ih =>
    cases rest with
    | nil =>
      rw [manifestUnloggedLoop, append_nil, getElem?_eq_none le_rfl]
      show some (Except.ok done) = some (Except.ok (done ++ []))
      rw [append_nil]
    | cons file files =>
      rw [manifestUnloggedLoop, getElem?_append_right le_rfl, Nat.sub_self]
      show (if _ then _ else _) = _
      have happend : done ++ file :: files = done ++ [file] ++ files := by rw [append_assoc]; rfl
      have hlength : done.length + 1 = (done ++ [file]).length := by rw [length_append]; rfl
      -- What is kept behind a file that is passed is kept behind it in the list.
      have hpass (kept : Option (List ManifestFile)) :
          kept.map (fun kept => (Except.ok (done ++ [file] ++ kept) : Except Error (List ManifestFile)))
            = (kept.map (file :: ·)).map (fun kept => .ok (done ++ kept)) := by
        rw [Option.map_map]
        congr 1
        funext kept
        show Except.ok _ = Except.ok _
        rw [append_assoc]
        rfl
      cases htest : (relationExp pgVersion pgCatalogVersion).test file.name with
      | false =>
        have hinv : UnloggedInv _ init (done ++ [file]) files last unlogged :=
          h.pass (fun htrue => absurd htrue (by rw [htest]; decide)) fun _ => ⟨rfl, rfl⟩
        rw [relationKept_other htest, ← hpass, ← ih (Nat.lt_of_succ_lt_succ hfuel) hinv, ← happend, ← hlength]
        rfl
      | true =>
        rw [if_pos rfl]
        cases hid : relationFileId (strBaseZ file.name) with
        | none =>
          rw [relationKept_long htest hid]
          rfl
        | some id =>
          show (if (if last ≠ id then manifestFileExists (done ++ file :: files) (relationInit file.name id)
            else unlogged) then _ else _) = _
          simp only [h.lookup htest hid]
          cases hflag : relationUnlogged init last unlogged file.name id with
          | true =>
            obtain ⟨idx, other, hother, hname, hremove, hinv⟩ := h.remove htest hid hflag
            have hshort : ((file :: files).eraseIdx idx).length < fuel := by
              rw [length_eraseIdx_of_lt (List.getElem?_eq_some_iff.mp hother).1]
              exact Nat.lt_of_succ_lt_succ hfuel
            have hsorted : SortedByName (file :: files) := (pairwise_append.mp h.sorted).2.1
            rw [if_pos rfl, hremove, relationKept_relation htest hid hflag, if_pos rfl,
              ← relationKept_eraseIdx htest hid hsorted hother hname]
            exact ih hshort hinv
          | false =>
            have hinv : UnloggedInv _ init (done ++ [file]) files id false :=
              h.pass (fun _ => ⟨relationFileId_eq hid, rfl⟩) fun hfalse => absurd hfalse (by rw [htest]; decide)
            rw [relationKept_relation htest hid hflag]
            simp only [Bool.false_eq_true, if_false]
            rw [← hpass, ← ih (Nat.lt_of_succ_lt_succ hfuel) hinv, ← happend, ← hlength]

end Loop

/-! ## When the removal is exact -/

section Exact

variable (pgVersion pgCatalogVersion : ℕ)

/-- Does the file look like a relation? -/
def isRelation (file : ManifestFile) : Bool := (relationExp pgVersion pgCatalogVersion).test file.name

def relationNumber (file : ManifestFile) : Str := relationDigits (strBaseZ file.name)

/-- **Is the `_init` fork of the relation in the list?** -/
def hasInit (fileList : List ManifestFile) (file : ManifestFile) : Bool :=
  fileList.any fun init => init.name = relationInit file.name (relationNumber file)

/-- **The file belongs to an unlogged relation**: it looks like a relation, and
the `_init` fork of the same number is in the same directory. -/
def isUnlogged (fileList : List ManifestFile) (file : ManifestFile) : Bool :=
  isRelation pgVersion pgCatalogVersion file && hasInit fileList file

/-- When two files that look like relations follow each other and have the same
number, either both relations are unlogged or none is. -/
def SameUnlogged (fileList : List ManifestFile) (f g : ManifestFile) : Prop :=
  relationNumber f = relationNumber g → hasInit fileList f = hasInit fileList g

variable {pgVersion pgCatalogVersion} {fileList files : List ManifestFile} {file : ManifestFile}
  {last : Str} {unlogged : Bool}

theorem relationFileId_of_le (h : (relationNumber file).length ≤ 20) :
    relationFileId (strBaseZ file.name) = some (relationNumber file) := if_pos (Nat.lt_succ_of_le h)

theorem relationFileId_of_lt (h : 20 < (relationNumber file).length) :
    relationFileId (strBaseZ file.name) = none := if_neg (Nat.not_lt.mpr h)

theorem isRelation_ne_nil (h : isRelation pgVersion pgCatalogVersion file = true) : relationNumber file ≠ [] := by
  obtain ⟨dir, id, tail, hname⟩ := exists_relationName h
  unfold relationNumber
  rw [hname.relationDigits]
  exact hname.ne_nil

/-- The names that are looked up in the list. -/
def listInit (fileList : List ManifestFile) (name : Str) : Bool := fileList.any fun file => file.name = name

/-- What is remembered is right for the first relation that follows. -/
def Remembered (fileList : List ManifestFile) (last : Str) (unlogged : Bool) (file : ManifestFile) : Prop :=
  last = relationNumber file → unlogged = hasInit fileList file

theorem relationUnlogged_eq_iff :
    relationUnlogged (listInit fileList) last unlogged file.name (relationNumber file) = hasInit fileList file ↔
      Remembered fileList last unlogged file := by
  unfold relationUnlogged Remembered
  by_cases hlast : last = relationNumber file
  · rw [if_neg (not_not.mpr hlast)]
    exact ⟨fun h _ => h, fun h => h hlast⟩
  · rw [if_pos hlast]
    exact ⟨fun _ h => absurd h hlast, fun _ => rfl⟩

theorem map_cons_eq_some_cons {a : ManifestFile} {o : Option (List ManifestFile)} {l : List ManifestFile} :
    o.map (a :: ·) = some (a :: l) ↔ o = some l := by
  cases o with
  | none => exact ⟨fun h => absurd h nofun, fun h => absurd h nofun⟩
  | some l' => simp

/-- **Step by step, the walk is exact as long as what it remembers is right.** -/
theorem relationKept_exact_iff (hsorted : SortedByName files) :
    relationKept (relationExp pgVersion pgCatalogVersion) (listInit fileList) last unlogged files
        = some (files.filter fun file => !isUnlogged pgVersion pgCatalogVersion fileList file) ↔
      (∀ file ∈ files, isRelation pgVersion pgCatalogVersion file = true → (relationNumber file).length ≤ 20) ∧
      (∀ file ∈ (files.filter (isRelation pgVersion pgCatalogVersion)).head?,
        Remembered fileList last unlogged file) ∧
      (files.filter (isRelation pgVersion pgCatalogVersion)).IsChain (SameUnlogged fileList) := by
  induction files generalizing last unlogged with
  | nil => exact ⟨fun _ => ⟨by simp, by simp, .nil⟩, fun _ => rfl⟩
  | cons file files ih =>
    have hfiles : SortedByName files := (pairwise_cons.mp hsorted).2
    rw [forall_mem_cons, filter_cons, filter_cons]
    unfold isUnlogged at ih ⊢
    cases htest : isRelation pgVersion pgCatalogVersion file with
    | false =>
      rw [relationKept_other htest]
      simp only [Bool.false_and, Bool.not_false, if_true, Bool.false_eq_true, if_false, false_imp_iff, true_and]
      rw [← ih hfiles, map_cons_eq_some_cons]
    | true =>
      simp only [Bool.true_and, if_true, head?_cons, Option.mem_some_iff, forall_eq', true_imp_iff]
      by_cases hlength : (relationNumber file).length ≤ 20
      swap
      · rw [relationKept_long htest (relationFileId_of_lt (not_le.mp hlength))]
        exact ⟨fun h => absurd h nofun, fun h => absurd h.1.1 hlength⟩
      have hid := relationFileId_of_le hlength
      by_cases hrem : Remembered fileList last unlogged file
      · rw [relationKept_relation htest hid (relationUnlogged_eq_iff.mpr hrem), isChain_cons]
        -- The walk goes on with what it has just looked up.
        have hnext := @ih (relationNumber file) (hasInit fileList file) hfiles
        have hgoal :
            ((if hasInit fileList file = true then
                relationKept (relationExp pgVersion pgCatalogVersion) (listInit fileList) (relationNumber file)
                  (hasInit fileList file) files
              else (relationKept (relationExp pgVersion pgCatalogVersion) (listInit fileList)
                (relationNumber file) (hasInit fileList file) files).map (file :: ·))
              = some (if (!hasInit fileList file) = true then
                  file :: files.filter fun file =>
                    !(isRelation pgVersion pgCatalogVersion file && hasInit fileList file)
                else files.filter fun file =>
                  !(isRelation pgVersion pgCatalogVersion file && hasInit fileList file))) ↔
            relationKept (relationExp pgVersion pgCatalogVersion) (listInit fileList) (relationNumber file)
              (hasInit fileList file) files
              = some (files.filter fun file =>
                !(isRelation pgVersion pgCatalogVersion file && hasInit fileList file)) := by
          cases hasInit fileList file with
          | true => exact Iff.rfl
          | false => exact map_cons_eq_some_cons
        rw [hgoal, hnext]
        exact ⟨fun h => ⟨⟨hlength, h.1⟩, hrem, h.2⟩, fun h => ⟨h.1.2, h.2.2⟩⟩
      · refine ⟨fun h => absurd h ?_, fun h => absurd h.2.1 hrem⟩
        obtain ⟨hlast, hne⟩ := Classical.not_imp.mp hrem
        have hflag : relationUnlogged (listInit fileList) last unlogged file.name (relationNumber file) = unlogged :=
          if_neg (not_not.mpr hlast)
        rw [relationKept_relation htest hid hflag]
        intro h
        cases unlogged with
        | true =>
          -- A logged relation is removed.
          have hinit : hasInit fileList file = false := Bool.eq_false_iff.mpr (Ne.symm hne)
          rw [hinit] at h
          exact not_mem_relationKept htest hid hsorted h file mem_cons_self rfl
        | false =>
          -- An unlogged relation stays.
          have hinit : hasInit fileList file = true := Bool.eq_true_of_not_eq_false (Ne.symm hne)
          rw [hinit] at h
          obtain ⟨kept, -, hcons⟩ := Option.map_eq_some_iff.mp h
          have hmem : file ∈ files.filter fun file =>
              !(isRelation pgVersion pgCatalogVersion file && hasInit fileList file) := by
            have hfilter : file :: kept = files.filter _ := hcons
            rw [← hfilter]
            exact mem_cons_self
          have hkept := (mem_filter.mp hmem).2
          rw [htest, hinit] at hkept
          cases hkept

/-- **The removal is exact exactly when relations of the same number that follow
each other are alike**, and no number is larger than the buffer it is stored in. -/
theorem manifestUnloggedRemove_exact (hsorted : SortedByName fileList) {fuel : ℕ}
    (hfuel : fileList.length < fuel) :
    manifestUnloggedRemove pgVersion pgCatalogVersion fuel fileList
        = some (.ok (fileList.filter fun file => !isUnlogged pgVersion pgCatalogVersion fileList file)) ↔
      (∀ file ∈ fileList, isRelation pgVersion pgCatalogVersion file = true →
        (relationNumber file).length ≤ 20) ∧
      (fileList.filter (isRelation pgVersion pgCatalogVersion)).IsChain (SameUnlogged fileList) := by
  have hinv : UnloggedInv (relationExp pgVersion pgCatalogVersion) (listInit fileList) [] fileList [] false := by
    refine ⟨fun name _ => ?_, hsorted, fun f hf => absurd hf not_mem_nil⟩
    unfold listInit
    rw [any_eq_true]
    simp only [decide_eq_true_eq, nil_append]
  have hloop := manifestUnloggedLoop_eq hfuel hinv
  have hremembered : ∀ file ∈ (fileList.filter (isRelation pgVersion pgCatalogVersion)).head?,
      Remembered fileList [] false file := by
    intro file hfile hnil
    have hmem := mem_filter.mp (mem_of_mem_head? hfile)
    exact absurd hnil.symm (isRelation_ne_nil hmem.2)
  calc _ ↔ relationKept (relationExp pgVersion pgCatalogVersion) (listInit fileList) [] false fileList
        = some (fileList.filter fun file => !isUnlogged pgVersion pgCatalogVersion fileList file) := by
        refine (iff_of_eq (congrArg (· = _) hloop)).trans ?_
        rw [Option.map_eq_some_iff]
        exact ⟨fun ⟨kept, hkept, hok⟩ => by rw [hkept, ← Except.ok.inj hok]; rfl, fun h => ⟨_, h, rfl⟩⟩
    _ ↔ _ := relationKept_exact_iff hsorted
    _ ↔ _ := and_congr_right fun _ => and_iff_right hremembered

/-- A file of a name, with everything else at its default. -/
def manifestFileSample (name : String) : ManifestFile where
  name := name.toList
  copy := true
  delta := false
  resume := false
  checksumPage := false
  checksumPageError := false
  mode := 0
  checksumSha1 := none
  checksumRepoSha1 := none
  checksumPageErrorList := none
  user := none
  group := none
  reference := none
  bundleId := 0
  bundleOffset := 0
  blockIncrSize := 0
  blockIncrChecksumSize := 0
  blockIncrMapSize := 0
  size := 8192
  sizeOriginal := 8192
  sizeRepo := 8192
  timestamp := 0

/-- The files of an unlogged relation of two databases are removed, and nothing
else. -/
theorem manifestUnloggedRemove_exact_two :
    let fileList := ["pg_data/base/1/16384", "pg_data/base/1/16384.1", "pg_data/base/1/16384_init",
      "pg_data/base/1/2600", "pg_data/base/2/16384", "pg_data/base/2/PG_VERSION"].map manifestFileSample
    SortedByName fileList ∧
    manifestUnloggedRemove 150000 202209061 7 fileList
      = some (.ok (fileList.filter fun file => !isUnlogged 150000 202209061 fileList file)) := by
  intro fileList
  have hsorted : SortedByName fileList := by
    unfold SortedByName
    decide +kernel
  refine ⟨hsorted, (manifestUnloggedRemove_exact hsorted (by decide)).mpr ⟨?_, ?_⟩⟩
  · decide +kernel
  · have hfilter : fileList.filter (isRelation 150000 202209061)
        = ["pg_data/base/1/16384", "pg_data/base/1/16384.1", "pg_data/base/1/2600",
          "pg_data/base/2/16384"].map manifestFileSample := by decide +kernel
    rw [hfilter]
    unfold SameUnlogged
    decide +kernel

/-- **A logged relation is lost**: it is the first one of its database and has
the number of the last one of the database before, which is unlogged. -/
theorem manifestUnloggedRemove_other_directory :
    let fileList := ["pg_data/base/1/16384", "pg_data/base/1/16384_init", "pg_data/base/2/16384"].map
      manifestFileSample
    SortedByName fileList ∧
    manifestUnloggedRemove 150000 202209061 4 fileList
      = some (.ok [manifestFileSample "pg_data/base/1/16384_init"]) ∧
    fileList.filter (fun file => !isUnlogged 150000 202209061 fileList file)
      = [manifestFileSample "pg_data/base/1/16384_init", manifestFileSample "pg_data/base/2/16384"] := by
  refine ⟨?_, ?_, ?_⟩
  · unfold SortedByName
    decide +kernel
  · decide +kernel
  · decide +kernel

end Exact

end PgxBackup
