import PgxBackup.BinarySearch
import PgxBackup.Manifest
import PgxBackup.Nearest
import PgxBackup.PathResolve

/-!
# Checking the links of a manifest

A link in the data directory may lead to a file or a directory anywhere else,
but not into the data directory, and two links may not lead to the same place.
`manifestLinkCheck` adds the targets one after the other to a sorted list of
directories and checks each against the list.

A directory is in the list once, with the first link that leads to it. Further
links to files of the directory are compared with this one link only, so two of
them may lead to the same file.
-/

namespace PgxBackup

/-! ## The code -/

/-- Data needed in the link list (`ManifestLinkCheckItem`). The path ends in a
slash. -/
structure ManifestLinkCheckItem where
  path : Str
  file : Option Str
  targetIdx : ℕ
  deriving DecidableEq, Repr

/-- Persistent data of `manifestLinkCheck` (`ManifestLinkCheck`). -/
structure ManifestLinkCheck where
  basePath : Option Str
  linkList : List ManifestLinkCheckItem
  deriving DecidableEq, Repr

/-- `manifestLinkCheckInit`. -/
def manifestLinkCheckInit : ManifestLinkCheck := ⟨none, []⟩

/-- `manifestTargetFind`. The names of the targets are distinct. -/
def manifestTargetFind (targetList : List ManifestTarget) (name : Str) : Except Error ManifestTarget :=
  match targetList.find? (·.name = name) with
  | none => .error ⟨.assertError, "unable to find '".toList ++ name ++ "' in manifest target list".toList⟩
  | some target => .ok target

/-- `manifestTargetPath`. The path of the data directory itself is never
relative. -/
def manifestTargetPath (targetList : List ManifestTarget) (target : ManifestTarget) : Except Error Str :=
  -- if the target path is already absolute then just return it
  if strBeginsWith target.path "/".toList then .ok target.path
  else
    match manifestPathPg target.name with
    | none => .error ⟨.assertError, "assertion 'this != NULL' failed".toList⟩
    | some pathPg =>
      let pgPath := strPath pathPg
      let pgPath := if pgPath ≠ [] then pgPath ++ "/".toList else pgPath
      manifestTargetFind targetList "pg_data".toList >>= fun base =>
      strPathAbsolute (pgPath ++ target.path) base.path

/-- Where a link leads to, for the messages. -/
def manifestLinkText (targetList : List ManifestTarget) (target : ManifestTarget) (file : Option Str) :
    Except Error Str := do
  let path ← manifestTargetPath targetList target
  .ok ("link '".toList ++ (manifestPathPg target.name).getD [] ++ "' (".toList ++ path
    ++ (match file with | none => [] | some file => '/' :: file) ++ ")".toList)

/-- The error for two links that may not be there together. -/
def manifestLinkError (targetList : List ManifestTarget) (target1 : ManifestTarget) (file1 : Option Str)
    (reason : Str) (target2 : ManifestTarget) (file2 : Option Str) : Except Error Unit := do
  let link1 ← manifestLinkText targetList target1 file1
  let link2 ← manifestLinkText targetList target2 file2
  .error ⟨.linkDestinationError, link1 ++ " destination is ".toList ++ reason ++ ' ' :: link2⟩

/-- Find a path in the sorted link list (`lstFindIdx`). -/
def manifestLinkFind (linkList : List ManifestLinkCheckItem) (path : Str) : Option ℕ :=
  BinarySearch.bsearch (fun item => strCmp path item.path) linkList

def manifestLinkAddSort (linkList : List ManifestLinkCheckItem) (item : ManifestLinkCheckItem) :
    List ManifestLinkCheckItem :=
  (linkList ++ [item]).insertionSort (fun a b => a.path ≤ b.path)

/-- The check of a link against one that has the same destination path. -/
def manifestLinkCheckExists (targetList : List ManifestTarget) (target1 : ManifestTarget)
    (link : ManifestLinkCheckItem) : Except Error Unit :=
  match target1.file, link.file with
  -- if both links are files make sure they don't link to the same file
  | some file1, some file2 =>
    if file1 = file2 then do
      let target2 ← lstGet targetList link.targetIdx
      manifestLinkError targetList target1 (some file1) "the same file as".toList target2 (some file2)
    else .ok ()
  -- one of the links is a path and cannot link to the same path as another file or path link
  | _, _ => do
    let target2 ← lstGet targetList link.targetIdx
    manifestLinkError targetList target1 none "the same directory as".toList target2 none

/-- The check that a path link, at `linkIdx` of the sorted list, is not a subpath
of the prior path link. File links are skipped since they are allowed to be in
the same path with each other and in the parent path of a linked destination
path. -/
def manifestLinkCheckPrior (targetList : List ManifestTarget) (target1 : ManifestTarget)
    (linkList : List ManifestLinkCheckItem) (linkIdx : ℕ) (path : Str) : Except Error Unit :=
  match (linkList.take linkIdx).reverse.find? (·.file.isNone) with
  | none => .ok ()
  | some priorLink =>
    if strBeginsWith path priorLink.path then do
      let target2 ← lstGet targetList priorLink.targetIdx
      manifestLinkError targetList target1 none "a subdirectory of".toList target2 none
    else .ok ()

/-- The check that it is not a parent path of the next path link. -/
def manifestLinkCheckNext (targetList : List ManifestTarget) (target1 : ManifestTarget)
    (linkList : List ManifestLinkCheckItem) (linkIdx : ℕ) (path : Str) : Except Error Unit :=
  match (linkList.drop (linkIdx + 1)).find? (·.file.isNone) with
  | none => .ok ()
  | some nextLink =>
    if strBeginsWith nextLink.path path then do
      let target2 ← lstGet targetList nextLink.targetIdx
      manifestLinkError targetList target2 none "a subdirectory of".toList target1 none
    else .ok ()

/-- The base data path, which is initialized on the first call. -/
def manifestLinkBasePath (targetList : List ManifestTarget) (linkCheck : ManifestLinkCheck) : Except Error Str :=
  match linkCheck.basePath with
  | some basePath => .ok basePath
  | none => do
    let base ← manifestTargetFind targetList "pg_data".toList
    let path ← manifestTargetPath targetList base
    .ok (path ++ "/".toList)

def manifestLinkCheckList (targetList : List ManifestTarget) (linkList : List ManifestLinkCheckItem)
    (target1 : ManifestTarget) (targetIdx : ℕ) (path : Str) : Except Error (List ManifestLinkCheckItem) := do
  match manifestLinkFind linkList path with
  -- the link destination path already exists
  | some linkIdx =>
    let link ← lstGet linkList linkIdx
    manifestLinkCheckExists targetList target1 link
    .ok linkList
  -- add to the link list and check against other links
  | none =>
    let linkList := manifestLinkAddSort linkList ⟨path, target1.file, targetIdx⟩
    match manifestLinkFind linkList path with
    | none => .error ⟨.assertError, "assertion 'linkIdx != LIST_NOT_FOUND' failed".toList⟩
    | some linkIdx =>
      -- file links have already been checked
      match target1.file with
      | some _ => .ok linkList
      | none =>
        manifestLinkCheckPrior targetList target1 linkList linkIdx path
        manifestLinkCheckNext targetList target1 linkList linkIdx path
        .ok linkList

/-- `manifestLinkCheckOne`. -/
def manifestLinkCheckOne (targetList : List ManifestTarget) (linkCheck : ManifestLinkCheck) (targetIdx : ℕ) :
    Except Error ManifestLinkCheck := do
  let target1 ← lstGet targetList targetIdx
  if target1.type = .link then
    let path1 ← manifestTargetPath targetList target1
    let basePath ← manifestLinkBasePath targetList linkCheck
    -- it must end in a slash so subpaths can be detected
    let path := path1 ++ "/".toList
    if strBeginsWith path basePath then
      .error ⟨.linkDestinationError, "link '".toList ++ (manifestPathPg target1.name).getD []
        ++ "' destination '".toList ++ path1 ++ "' is in PGDATA".toList⟩
    else
      let linkList ← manifestLinkCheckList targetList linkCheck.linkList target1 targetIdx path
      .ok ⟨some basePath, linkList⟩
  else .ok linkCheck

/-- **`manifestLinkCheck`.** -/
def manifestLinkCheck (targetList : List ManifestTarget) : Except Error Unit :=
  ((List.range targetList.length).foldlM (manifestLinkCheckOne targetList) manifestLinkCheckInit).map fun _ => ()

/-! ## What a conflict is -/

/-- Where a link leads to: a directory, and a file in it if it is a file link. -/
structure LinkDestination where
  dir : Str
  file : Option Str
  deriving DecidableEq, Repr

/-- **Two links may not be there together**: they name the same file in the same
directory, one of them is a path link and has the same directory, or both are
path links and one directory is a subdirectory of the other. -/
def LinkConflict (within : Str → Str → Prop) (a b : LinkDestination) : Prop :=
  (within a.dir b.dir ∧ within b.dir a.dir) ∧ (a.file = none ∨ b.file = none ∨ a.file = b.file) ∨
    (a.file = none ∧ b.file = none) ∧ (within a.dir b.dir ∨ within b.dir a.dir)

instance (within : Str → Str → Prop) [∀ a b, Decidable (within a b)] (a b : LinkDestination) :
    Decidable (LinkConflict within a b) := inferInstanceAs (Decidable (_ ∨ _))

/-- The destinations of the link targets that have one, in the order of the
targets. -/
def linkDestinations (targetList : List ManifestTarget) : List LinkDestination :=
  (targetList.filter (·.type = .link)).filterMap fun target =>
    (manifestTargetPath targetList target).toOption.map fun dir => ⟨dir, target.file⟩

/-- The path of the data directory. -/
def manifestBaseDir (targetList : List ManifestTarget) : Option Str :=
  (manifestTargetFind targetList "pg_data".toList >>= manifestTargetPath targetList).toOption

/-- **The targets have no conflict**: no link leads into the base data path, and
no two links are in conflict, however their directories are written. -/
structure LinkConflictFree (targetList : List ManifestTarget) : Prop where
  base : ∀ base ∈ manifestBaseDir targetList, ∀ a ∈ linkDestinations targetList, ¬PathWithin base a.dir
  links : (linkDestinations targetList).Pairwise fun a b => ¬LinkConflict PathWithin a b

/-- Every link has a destination, and if there is one then the data directory
has a path. -/
structure LinkResolved (targetList : List ManifestTarget) : Prop where
  base : (∃ target ∈ targetList, target.type = .link) → (manifestBaseDir targetList).isSome = true
  links : ∀ target ∈ targetList, target.type = .link → (manifestTargetPath targetList target).toOption.isSome = true

/-- A directory lies in another one, as the text of the two paths shows. -/
def TextWithin (dir path : Str) : Prop := strBeginsWith (path ++ "/".toList) (dir ++ "/".toList) = true

def FirstIn (links : List LinkDestination) (a : LinkDestination) : Prop :=
  links.find? (·.dir = a.dir) = some a

/-- The destination shows no conflict with those that come before it: neither
with the base data path nor with the first link of any directory. -/
structure LinkAccepted (base : Str) (before : List LinkDestination) (a : LinkDestination) : Prop where
  base : ¬TextWithin base a.dir
  links : ∀ first, FirstIn before first → ¬LinkConflict TextWithin first a

/-- **A conflict that shows**: a link leads into the base data path, or a link is
in conflict with the first link of some directory, with paths that show it. -/
def VisibleConflict (targetList : List ManifestTarget) : Prop :=
  ∃ base ∈ manifestBaseDir targetList, ∃ before a after,
    linkDestinations targetList = before ++ a :: after ∧ ¬LinkAccepted base before a

/-- **The texts of the paths show what there is**: every link resolves, the text
tells whether a link leads into the base data path and whether two links are in
conflict, and a destination that two links have is the first one in its
directory. -/
structure LinksPlain (targetList : List ManifestTarget) : Prop where
  resolved : LinkResolved targetList
  base : ∀ base ∈ manifestBaseDir targetList, ∀ a ∈ linkDestinations targetList,
    TextWithin base a.dir ↔ PathWithin base a.dir
  links : (linkDestinations targetList).Pairwise fun a b => LinkConflict TextWithin a b ↔ LinkConflict PathWithin a b
  twice : (linkDestinations targetList).Pairwise fun a b => a = b → FirstIn (linkDestinations targetList) a

/-- **Two links meet**, or a link and the base data path. -/
def LinksMeet (targetList : List ManifestTarget) : Prop :=
  (∃ base ∈ manifestBaseDir targetList, ∃ a ∈ linkDestinations targetList, PathWithin base a.dir) ∨
    ∃ a b, [a, b].Sublist (linkDestinations targetList) ∧ LinkConflict PathWithin a b

end PgxBackup
