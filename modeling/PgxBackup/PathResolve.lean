import Mathlib.Data.List.Basic
import Mathlib.Tactic.Common
import PgxBackup.StrPath

/-!
# What a relative path means

A directory is known by the names that lead to it from the root. A relative
path is applied to it one component after the other: `.` stays where it is,
`..` leaves the directory for the one above it, and anything else is a name in
it, whatever it begins with. Above the root there is nothing.

`strPathAbsolute` works on the parts of both texts, where the root shows as an
empty first part, and looks at the text of its result once more. The second
look refuses any name that begins with two dots, and it refuses every name
under the root, whose own text splits into two empty parts.

An absolute path is kept as it is written, so a directory can be written in
several ways. That one directory lies in another one is a matter of the names.
-/

namespace PgxBackup

open List

/-! ## Directories and components -/

/-- One component applied to a directory. -/
def pathApply (dir : List Str) (part : Str) : Option (List Str) :=
  if part = ".".toList then some dir
  else if part = "..".toList then
    if dir = [] then none else some dir.dropLast
  else some (dir ++ [part])

/-- All components applied, one after the other. -/
def pathResolve (dir parts : List Str) : Option (List Str) := parts.foldlM pathApply dir

/-- What can stand between two slashes. -/
def IsComponent (part : Str) : Prop := part ≠ [] ∧ '/' ∉ part

/-- What a directory entry can be called. -/
structure IsName (name : Str) : Prop where
  component : IsComponent name
  ne_dot : name ≠ ".".toList
  ne_dotdot : name ≠ "..".toList

/-- The text of a directory, without a trailing slash. -/
def pathText (dir : List Str) : Str :=
  if dir = [] then "/".toList else intercalate "/".toList ([] :: dir)

def relativeText (parts : List Str) (trailing : Bool) : Str :=
  intercalate "/".toList parts ++ if trailing then "/".toList else []

/-- The function does what the components say: it returns the directory they
lead to, and it raises an error if they lead above the root. -/
def PathAbsoluteExact (dir parts : List Str) (trailing : Bool) : Prop :=
  match pathResolve dir parts with
  | some result => strPathAbsolute (relativeText parts trailing) (pathText dir) = .ok (pathText result)
  | none => ∃ error, strPathAbsolute (relativeText parts trailing) (pathText dir) = .error error

theorem pathApply_dot (dir : List Str) : pathApply dir ".".toList = some dir := if_pos rfl

theorem pathApply_dotdot (dir : List Str) :
    pathApply dir "..".toList = if dir = [] then none else some dir.dropLast := by
  unfold pathApply
  rw [if_neg (by decide), if_pos rfl]

theorem pathApply_name (dir : List Str) {part : Str} (hdot : part ≠ ".".toList) (hdotdot : part ≠ "..".toList) :
    pathApply dir part = some (dir ++ [part]) := by
  unfold pathApply
  rw [if_neg hdot, if_neg hdotdot]

/-- The parts of an absolute path: what stands between the slashes. -/
def pathParts (path : Str) : List Str := (strLstNewSplitSlash path).filter (· ≠ [])

/-- The names that an absolute path leads to, from the root. `..` stays at the
root, since nothing is above it. -/
def pathNames (path : Str) : List Str :=
  (pathParts path).foldl (fun dir part => (pathApply dir part).getD dir) []

/-- **The directory is the other one or lies in it.** -/
def PathWithin (dir path : Str) : Prop := pathNames dir <+: pathNames path

instance (dir path : Str) : Decidable (PathWithin dir path) := inferInstanceAs (Decidable (_ <+: _))

/-- A directory may be written with empty parts, dots and ways up. -/
example : PathWithin "/ts/a".toList "/ts/./a".toList ∧ PathWithin "/ts//b/../a".toList "/ts/a".toList ∧
    ¬PathWithin "/ts/a".toList "/ts/a/../b".toList := by decide +kernel

variable {dir parts : List Str} {trailing : Bool} {s : Str}

theorem isName_of_pathApply {next : List Str} {part : Str} (hdir : ∀ name ∈ dir, IsName name)
    (hpart : IsComponent part) (h : pathApply dir part = some next) : ∀ name ∈ next, IsName name := by
  unfold pathApply at h
  split at h
  · cases h
    exact hdir
  next hdot =>
    split at h
    · split at h
      · cases h
      · cases h
        exact fun name hname => hdir name (dropLast_subset _ hname)
    next hdotdot =>
      cases h
      intro name hname
      rcases mem_append.mp hname with hname | hname
      · exact hdir name hname
      · rw [mem_singleton.mp hname]
        exact ⟨hpart, hdot, hdotdot⟩

theorem isName_of_pathResolve {result : List Str} (hdir : ∀ name ∈ dir, IsName name)
    (hparts : ∀ part ∈ parts, IsComponent part) (h : pathResolve dir parts = some result) :
    ∀ name ∈ result, IsName name := by
  induction parts generalizing dir with
  | nil =>
    cases h
    exact hdir
  | cons part parts ih =>
    obtain ⟨next, hnext, hrest⟩ := Option.bind_eq_some_iff.mp (by simpa [pathResolve] using h)
    exact ih (isName_of_pathApply hdir (hparts part mem_cons_self) hnext)
      (fun other hother => hparts other (mem_cons_of_mem _ hother)) hrest

/-! ## The parts of the texts -/

/-- What stands before the names in the parts of a directory's text: the root
alone has two empty parts. -/
def rootParts (dir : List Str) : List Str := if dir = [] then [[], []] else [[]]

theorem noSlash_cons_nil (h : ∀ part ∈ parts, '/' ∉ part) :
    ∀ part ∈ [] :: parts, '/' ∉ part := by
  intro part hpart
  rcases mem_cons.mp hpart with rfl | hpart
  · exact not_mem_nil
  · exact h part hpart

theorem split_pathText (hdir : ∀ name ∈ dir, '/' ∉ name) :
    strLstNewSplitSlash (pathText dir) = rootParts dir ++ dir := by
  unfold strLstNewSplitSlash pathText rootParts
  by_cases hroot : dir = []
  · rw [if_pos hroot, if_pos hroot, hroot]
    decide
  · rw [if_neg hroot, if_neg hroot]
    exact splitOn_intercalate '/' (noSlash_cons_nil hdir) (cons_ne_nil _ _)

/-- The parts of a relative path are its components, and an empty one where it
ends in a slash or has no component at all. -/
theorem split_relativeText (hparts : ∀ part ∈ parts, '/' ∉ part)
    (htrailing : trailing = true → parts ≠ []) :
    ∃ tail, (tail = [] ∨ tail = [[]]) ∧ strLstNewSplitSlash (relativeText parts trailing) = parts ++ tail := by
  by_cases hnone : parts = []
  · cases trailing with
    | false => exact ⟨[[]], .inr rfl, by rw [hnone]; rfl⟩
    | true => exact absurd hnone (htrailing rfl)
  · have hsplit : splitOn '/' (intercalate "/".toList parts) = parts :=
      splitOn_intercalate '/' hparts hnone
    unfold strLstNewSplitSlash relativeText
    cases trailing with
    | false =>
      refine ⟨[], .inl rfl, ?_⟩
      rw [if_neg Bool.false_ne_true, append_nil, append_nil, hsplit]
    | true =>
      refine ⟨[[]], .inr rfl, ?_⟩
      rw [if_pos rfl, show "/".toList = '/' :: [] from rfl, splitOn_append_cons_self]
      show splitOn '/' (intercalate "/".toList parts) ++ _ = _
      rw [hsplit]
      rfl

theorem relativeText_not_absolute (hparts : ∀ part ∈ parts, IsComponent part)
    (htrailing : trailing = true → parts ≠ []) :
    strBeginsWith (relativeText parts trailing) "/".toList = false := by
  cases parts with
  | nil =>
    cases trailing with
    | false => rfl
    | true => exact absurd rfl (htrailing rfl)
  | cons part parts =>
    obtain ⟨hne, hslash⟩ := hparts part mem_cons_self
    cases part with
    | nil => exact absurd rfl hne
    | cons c part =>
      have hc : c ≠ '/' := fun hc => hslash (hc ▸ mem_cons_self)
      have htext : ∃ rest, relativeText ((c :: part) :: parts) trailing = c :: rest := by
        unfold relativeText
        cases parts with
        | nil => exact ⟨_, by rw [intercalate_singleton]; rfl⟩
        | cons other parts => exact ⟨_, by rw [intercalate_cons_cons]; rfl⟩
      obtain ⟨rest, htext⟩ := htext
      rw [htext]
      show (('/' == c) && isPrefixOf [] rest) = false
      rw [beq_eq_false_iff_ne.mpr (Ne.symm hc)]
      rfl

/-! ## Plainly written directories -/

theorem intercalate_slash (head : Str) (parts : List Str) :
    intercalate "/".toList (head :: parts) = head ++ parts.flatMap fun part => '/' :: part := by
  induction parts generalizing head with
  | nil => rw [intercalate_singleton, flatMap_nil, append_nil]
  | cons part parts ih =>
    rw [intercalate_cons_cons, ih, flatMap_cons]
    simp

/-- The names of a directory that is written plainly are those of its text. -/
theorem pathNames_text (hdir : ∀ name ∈ dir, IsName name) : pathNames (pathText dir) = dir := by
  have hparts : pathParts (pathText dir) = dir := by
    unfold pathParts
    rw [split_pathText fun name hname => (hdir name hname).component.2, filter_append,
      filter_eq_self.mpr fun name hname => decide_eq_true (hdir name hname).component.1]
    unfold rootParts
    split
    · rfl
    · rfl
  have hfold (before names : List Str) (hnames : ∀ name ∈ names, IsName name) :
      names.foldl (fun dir part => (pathApply dir part).getD dir) before = before ++ names := by
    induction names generalizing before with
    | nil => exact (append_nil before).symm
    | cons name names ih =>
      have hname := hnames name mem_cons_self
      rw [foldl_cons, pathApply_name before hname.ne_dot hname.ne_dotdot, Option.getD_some,
        ih _ fun other hother => hnames other (mem_cons_of_mem _ hother), append_assoc]
      rfl
  unfold pathNames
  rw [hparts]
  exact hfold [] dir hdir

/-- **The text of a plainly written directory shows what lies in it**, except for
the root. -/
theorem pathText_prefix_iff {path : List Str} (hdir : ∀ name ∈ dir, '/' ∉ name) (hpath : ∀ name ∈ path, '/' ∉ name)
    (hdirRoot : dir ≠ []) (hpathRoot : path ≠ []) :
    pathText dir ++ ['/'] <+: pathText path ++ ['/'] ↔ dir <+: path := by
  constructor
  · rintro ⟨rest, hrest⟩
    have hsplit : strLstNewSplitSlash (pathText path) ++ [[]]
        = strLstNewSplitSlash (pathText dir) ++ strLstNewSplitSlash rest := by
      have h := congrArg strLstNewSplitSlash hrest
      unfold strLstNewSplitSlash at h ⊢
      rw [append_assoc, singleton_append, splitOn_append_cons_self, splitOn_append_cons_self] at h
      exact h.symm
    rw [split_pathText hdir, split_pathText hpath] at hsplit
    unfold rootParts at hsplit
    rw [if_neg hdirRoot, if_neg hpathRoot, append_assoc, append_assoc] at hsplit
    have hparts := append_cancel_left hsplit
    have hlength := congrArg length hparts
    rw [length_append, length_append, length_singleton] at hlength
    have hrest : 0 < (strLstNewSplitSlash rest).length := length_pos_of_ne_nil (splitOn_ne_nil '/' rest)
    exact prefix_of_prefix_length_le (hparts ▸ prefix_append dir _) (prefix_append path _) (by omega)
  · rintro ⟨rest, rfl⟩
    unfold pathText
    rw [if_neg hdirRoot, if_neg hpathRoot, intercalate_slash, intercalate_slash, flatMap_append]
    cases rest with
    | nil => exact ⟨[], by simp⟩
    | cons name rest => exact ⟨name ++ rest.flatMap (fun part => '/' :: part) ++ ['/'], by simp⟩

/-! ## The loop -/

/-- **The loop applies the components**, behind the parts that stand for the
root, and it stops at the empty part of a trailing slash. -/
theorem strPathAbsoluteLoop_resolve (this base : Str) {root tail : List Str}
    (hroot : root.getLastD [] = []) (hdir : ∀ name ∈ dir, IsName name) (hparts : ∀ part ∈ parts, IsComponent part)
    (htail : tail = [] ∨ tail = [[]]) :
    match pathResolve dir parts with
    | some result => strPathAbsoluteLoop this base (parts ++ tail) (root ++ dir) = .ok (root ++ result)
    | none => ∃ error, strPathAbsoluteLoop this base (parts ++ tail) (root ++ dir) = .error error := by
  induction parts generalizing dir with
  | nil =>
    show strPathAbsoluteLoop this base tail (root ++ dir) = .ok (root ++ dir)
    rcases htail with rfl | rfl
    · rfl
    · rfl
  | cons part parts ih =>
    have hpart := hparts part mem_cons_self
    have hrest : ∀ other ∈ parts, IsComponent other := fun other hother => hparts other (mem_cons_of_mem _ hother)
    have hresolve : pathResolve dir (part :: parts) = pathApply dir part >>= fun next => pathResolve next parts := by
      unfold pathResolve
      rw [foldlM_cons]
    have hloop : strPathAbsoluteLoop this base (part :: parts ++ tail) (root ++ dir)
        = if part = "..".toList then
            if (root ++ dir).getLastD [] = [] then
              .error ⟨.assertError, "relative path '".toList ++ this ++ "' goes back too far in base path '".toList
                ++ base ++ "'".toList⟩
            else strPathAbsoluteLoop this base (parts ++ tail) (root ++ dir).dropLast
          else if part ≠ ".".toList then
            strPathAbsoluteLoop this base (parts ++ tail) ((root ++ dir) ++ [part])
          else strPathAbsoluteLoop this base (parts ++ tail) (root ++ dir) := by
      rw [cons_append, strPathAbsoluteLoop, if_neg hpart.1]
    rw [hresolve, hloop]
    by_cases hdotdot : part = "..".toList
    · rw [if_pos hdotdot, hdotdot, pathApply_dotdot]
      by_cases hempty : dir = []
      · rw [if_pos hempty, hempty, append_nil, if_pos hroot]
        exact ⟨_, rfl⟩
      · -- The last part is a name, so it is not empty and goes.
        have hlast : (root ++ dir).getLastD [] = dir.getLast hempty := by
          rw [getLastD_eq_getLast?, getLast?_append_of_ne_nil _ hempty,
            getLast?_eq_some_getLast hempty]
          rfl
        rw [if_neg hempty, if_neg (hlast ▸ (hdir _ (getLast_mem hempty)).component.1),
          dropLast_append_of_ne_nil hempty]
        exact ih (fun name hname => hdir name (dropLast_subset _ hname)) hrest
    · rw [if_neg hdotdot]
      by_cases hdot : part = ".".toList
      · rw [if_neg (not_not.mpr hdot), hdot, pathApply_dot]
        exact ih hdir hrest
      · rw [if_pos hdot, pathApply_name dir hdot hdotdot, append_assoc]
        exact ih (isName_of_pathApply hdir hpart (pathApply_name dir hdot hdotdot)) hrest

/-! ## The second look at the result -/

theorem split_tail_of_infix (rest : Str) (h : '/' :: rest <:+: s) :
    ∃ after, ∀ part ∈ strLstNewSplitSlash (rest ++ after), part ∈ (strLstNewSplitSlash s).tail := by
  obtain ⟨before, after, rfl⟩ := h
  refine ⟨after, fun part hpart => ?_⟩
  have hsplit : strLstNewSplitSlash (before ++ '/' :: rest ++ after)
      = strLstNewSplitSlash before ++ strLstNewSplitSlash (rest ++ after) := by
    unfold strLstNewSplitSlash
    rw [append_assoc, cons_append, splitOn_append_cons_self]
  rw [hsplit, tail_append_of_ne_nil (show strLstNewSplitSlash before ≠ [] from splitOn_ne_nil '/' before)]
  exact mem_append_right _ hpart

/-- Two slashes in a row have an empty part between them. -/
theorem nil_mem_of_slashes (h : strstr s "//".toList = true) : [] ∈ (strLstNewSplitSlash s).tail := by
  obtain ⟨after, hafter⟩ := split_tail_of_infix ['/'] (of_decide_eq_true h)
  refine hafter [] ?_
  unfold strLstNewSplitSlash
  rw [singleton_append, splitOn_cons_eq_if_modifyHead, if_pos (beq_self_eq_true '/')]
  exact mem_cons_self

/-- A slash before two dots has a part behind it that begins with them. -/
theorem dotdot_mem_of_strstr (h : strstr s "/..".toList = true) :
    ∃ part ∈ (strLstNewSplitSlash s).tail, "..".toList <+: part := by
  obtain ⟨after, hafter⟩ := split_tail_of_infix "..".toList (of_decide_eq_true h)
  obtain ⟨head, tail, hsplit⟩ := exists_cons_of_ne_nil (splitOn_ne_nil '/' after)
  refine ⟨"..".toList ++ head, hafter _ ?_, prefix_append _ _⟩
  show _ ∈ splitOn '/' ('.' :: '.' :: after)
  rw [splitOn_cons_eq_if_modifyHead, if_neg (by decide), splitOn_cons_eq_if_modifyHead, if_neg (by decide),
    hsplit]
  exact mem_cons_self

theorem strstr_of_dotdot {name : Str} (hmem : name ∈ parts) (h : "..".toList <+: name) :
    strstr (intercalate "/".toList ([] :: parts)) "/..".toList = true := by
  obtain ⟨before, after, rfl⟩ := append_of_mem hmem
  obtain ⟨rest, rfl⟩ := h
  refine decide_eq_true ⟨before.flatMap fun part => '/' :: part, rest ++ after.flatMap fun part => '/' :: part, ?_⟩
  rw [intercalate_slash, flatMap_append, flatMap_cons]
  simp

theorem strstr_of_root (h : parts ≠ []) :
    strstr (intercalate "/".toList ([] :: [] :: parts)) "//".toList = true := by
  obtain ⟨part, parts, rfl⟩ := exists_cons_of_ne_nil h
  refine decide_eq_true ⟨[], part ++ parts.flatMap fun part => '/' :: part, ?_⟩
  rw [intercalate_slash, flatMap_cons, flatMap_cons]
  simp

/-- The text of a directory passes if none of its names begins with two
dots. -/
theorem pathText_accepted (hdir : ∀ name ∈ dir, IsName name)
    (hdots : ∀ name ∈ dir, ¬"..".toList <+: name) :
    (strstr (pathText dir) "/..".toList || strstr (pathText dir) "//".toList) = false := by
  have htail : (strLstNewSplitSlash (pathText dir)).tail = if dir = [] then [[]] else dir := by
    rw [split_pathText fun name hname => (hdir name hname).component.2]
    unfold rootParts
    by_cases hroot : dir = []
    · rw [if_pos hroot, if_pos hroot, hroot]
      rfl
    · rw [if_neg hroot, if_neg hroot]
      rfl
  by_cases hroot : dir = []
  · rw [hroot]
    decide
  · rw [if_neg hroot] at htail
    rw [Bool.or_eq_false_iff]
    constructor
    · refine Bool.eq_false_iff.mpr fun h => ?_
      obtain ⟨part, hpart, hprefix⟩ := dotdot_mem_of_strstr h
      exact hdots part (htail ▸ hpart) hprefix
    · refine Bool.eq_false_iff.mpr fun h => ?_
      exact (hdir [] (htail ▸ nil_mem_of_slashes h)).component.1 rfl

/-! ## The result -/

theorem pathText_absolute (dir : List Str) : strBeginsWith (pathText dir) "/".toList = true := by
  unfold pathText
  by_cases hroot : dir = []
  · rw [if_pos hroot]
    rfl
  · obtain ⟨name, dir, rfl⟩ := exists_cons_of_ne_nil hroot
    rw [if_neg hroot, intercalate_cons_cons]
    rfl

/-- The loop, over the parts of a relative path and of a directory. -/
theorem strPathAbsoluteLoop_text (hdir : ∀ name ∈ dir, IsName name)
    (hparts : ∀ part ∈ parts, IsComponent part) (htrailing : trailing = true → parts ≠ []) :
    match pathResolve dir parts with
    | some result =>
      strPathAbsoluteLoop (relativeText parts trailing) (pathText dir)
        (strLstNewSplitSlash (relativeText parts trailing)) (strLstNewSplitSlash (pathText dir))
          = .ok (rootParts dir ++ result)
    | none => ∃ error,
      strPathAbsoluteLoop (relativeText parts trailing) (pathText dir)
        (strLstNewSplitSlash (relativeText parts trailing)) (strLstNewSplitSlash (pathText dir)) = .error error := by
  obtain ⟨tail, htail, hsplit⟩ := split_relativeText (fun part hpart => (hparts part hpart).2) htrailing
  rw [hsplit, split_pathText fun name hname => (hdir name hname).component.2]
  refine strPathAbsoluteLoop_resolve _ _ ?_ hdir hparts htail
  unfold rootParts
  split
  · rfl
  · rfl

/-- What is built from a relative path is what the loop leaves. -/
theorem strPathAbsoluteResult_text (dir : List Str) (hparts : ∀ part ∈ parts, IsComponent part)
    (htrailing : trailing = true → parts ≠ []) :
    strPathAbsoluteResult (relativeText parts trailing) (pathText dir)
      = strPathAbsoluteLoop (relativeText parts trailing) (pathText dir)
          (strLstNewSplitSlash (relativeText parts trailing)) (strLstNewSplitSlash (pathText dir)) >>=
        fun baseList =>
          .ok (if baseList.length = 1 then "/".toList else intercalate "/".toList baseList) := by
  unfold strPathAbsoluteResult
  rw [relativeText_not_absolute hparts htrailing, pathText_absolute]
  rfl

/-- The parts behind the root, joined: from the root itself, a name stands
behind two slashes. -/
theorem join_rootParts (dir result : List Str) :
    (if (rootParts dir ++ result).length = 1 then "/".toList
      else intercalate "/".toList (rootParts dir ++ result))
    = if dir = [] ∧ result ≠ [] then intercalate "/".toList ([] :: [] :: result) else pathText result := by
  unfold rootParts pathText
  by_cases hroot : dir = []
  · rw [if_pos hroot]
    cases result with
    | nil => simp [hroot]
    | cons name result => simp [hroot]
  · rw [if_neg hroot]
    cases result with
    | nil => simp
    | cons name result => simp [hroot]

/-- **`strPathAbsolute` is lexical path resolution** exactly if no name of the
resolved path begins with two dots and, from the root, the resolved path is the
root again. -/
theorem strPathAbsolute_exact {dir parts : List Str} (hdir : ∀ name ∈ dir, IsName name)
    (hparts : ∀ part ∈ parts, IsComponent part) {trailing : Bool} (htrailing : trailing = true → parts ≠ []) :
    PathAbsoluteExact dir parts trailing ↔
      ∀ result, pathResolve dir parts = some result →
        (dir = [] → result = []) ∧ ∀ name ∈ result, ¬"..".toList <+: name := by
  have hloop := strPathAbsoluteLoop_text hdir hparts htrailing
  have htext := strPathAbsoluteResult_text dir hparts htrailing
  unfold PathAbsoluteExact
  cases hresolve : pathResolve dir parts with
  | none =>
    rw [hresolve] at hloop
    obtain ⟨error, hloop⟩ := hloop
    refine iff_of_true ⟨error, ?_⟩ fun result h => absurd h nofun
    unfold strPathAbsolute
    rw [htext, hloop]
    rfl
  | some result =>
    rw [hresolve] at hloop
    rw [hloop, ok_bind, join_rootParts] at htext
    show strPathAbsolute _ _ = .ok (pathText result) ↔ _
    unfold strPathAbsolute
    rw [htext, ok_bind]
    by_cases hroot : dir = [] ∧ result ≠ []
    · have hseen : (strstr (intercalate "/".toList ([] :: [] :: result)) "/..".toList ||
          strstr (intercalate "/".toList ([] :: [] :: result)) "//".toList) = true := by
        rw [strstr_of_root hroot.2, Bool.or_true]
      rw [if_pos hroot, if_pos hseen]
      exact iff_of_false nofun fun h => hroot.2 ((h result rfl).1 hroot.1)
    · rw [if_neg hroot]
      constructor
      · intro hok result' hresult'
        cases hresult'
        refine ⟨fun hdir => not_not.mp fun hne => hroot ⟨hdir, hne⟩, fun name hname hdots => ?_⟩
        have hseen : strstr (pathText result) "/..".toList = true := by
          unfold pathText
          rw [if_neg (ne_nil_of_mem hname)]
          exact strstr_of_dotdot hname hdots
        rw [hseen, Bool.true_or, if_pos rfl] at hok
        cases hok
      · intro h
        rw [pathText_accepted (isName_of_pathResolve hdir hparts hresolve) (h result rfl).2]
        rfl

/-- From a directory to the one beside it. -/
theorem strPathAbsolute_exact_sibling :
    PathAbsoluteExact ["base".toList] ["..".toList, "data".toList] true := by
  refine (strPathAbsolute_exact ?_ ?_ (fun _ => cons_ne_nil _ _)).mpr ?_
  · exact forall_mem_singleton.mpr ⟨⟨by decide, by decide⟩, by decide, by decide⟩
  · exact forall_mem_cons.mpr ⟨⟨by decide, by decide⟩,
      forall_mem_singleton.mpr ⟨by decide, by decide⟩⟩
  · intro result hresult
    cases hresult
    exact ⟨fun h => absurd h (cons_ne_nil _ _), forall_mem_singleton.mpr (by decide)⟩

/-- A name under the root is refused, and so is one that begins with two dots,
where lexical resolution has a directory for both. -/
theorem strPathAbsolute_refuses_names :
    pathResolve [] ["data".toList] = some ["data".toList] ∧
    strPathAbsolute "data".toList "/".toList
      = .error ⟨.assertError, "result path '//data' is not absolute".toList⟩ ∧
    pathResolve ["base".toList] ["..data".toList] = some ["base".toList, "..data".toList] ∧
    strPathAbsolute "..data".toList "/base".toList
      = .error ⟨.assertError, "result path '/base/..data' is not absolute".toList⟩ := by
  decide +kernel

end PgxBackup
