import Mathlib.Data.List.Dedup
import PgxBackup.StorageIterator

/-!
# Lists of object stores

An object store knows keys only. A list request asks for the keys that begin
with a query prefix; with a delimiter, the keys that go on after the next
delimiter are put together to a common prefix, which is reported as a path.
The answer comes in pages. When there is an expression the driver puts the
prefix that every match begins with into the request.
-/

namespace PgxBackup

variable {ι : Type}

/-! ## The prefix of an expression -/

/-- The characters that end the prefix of an expression. -/
def regExpPrefixEnd : List Char :=
  ['.', '^', '$', '*', '+', '-', '?', '(', '[', '{', ' ', '|', '\\']

/-- Is there another begin anchor? `[^` and an escaped `^` are none. -/
def regExpAnchor (prior : Char) : Str → Bool
  | [] => false
  | chr :: rest => (chr = '^' && prior ≠ '[' && prior ≠ '\\') || regExpAnchor chr rest

/-- **The prefix of an expression** (`regExpPrefix`), or `NULL` if it has
none. -/
def regExpPrefix : Option Str → Option Str
  | some ('^' :: expression) =>
    let result := expression.takeWhile (fun chr => chr ∉ regExpPrefixEnd)
    if result = [] then none
    else if regExpAnchor (result.getLastD '^') (expression.drop result.length) then none
    else some result
  | _ => none

/-! ## Object stores -/

/-- **The objects of a bucket** with what is known of them. A key is the path
of a file without its leading slash. -/
structure ObjectStore (ι : Type) where
  objects : List (Str × ι)
  sorted : (objects.map Prod.fst).Pairwise (· < ·)
  relative : ∀ object ∈ objects, object.1.head? ≠ some '/'

/-- What a list request is answered with, or a page of it. -/
structure ObjectList (ι : Type) where
  commonPrefixes : List Str
  contents : List (Str × ι)

/-- What follows the query prefix in a key that begins with it. -/
def keySuffix (queryPrefix key : Str) : Option Str :=
  if queryPrefix.isPrefixOf key then some (key.drop queryPrefix.length) else none

/-- The common prefix that a key belongs to, if it goes on after the
delimiter. -/
def commonPrefix (queryPrefix key : Str) : Option Str :=
  match keySuffix queryPrefix key with
  | none => none
  | some suffix =>
    if '/' ∈ suffix then some (queryPrefix ++ suffix.takeWhile (· ≠ '/') ++ ['/']) else none

/-- Does the key have no delimiter after the query prefix? -/
def isContent (queryPrefix key : Str) : Bool :=
  match keySuffix queryPrefix key with
  | none => false
  | some suffix => '/' ∉ suffix

/-- **What a list request asks for**, with the delimiter `/`. -/
def ObjectStore.list (store : ObjectStore ι) (queryPrefix : Str) : ObjectList ι where
  commonPrefixes := strLstSort
    (store.objects.filterMap (fun object => commonPrefix queryPrefix object.1)).dedup .asc
  contents := store.objects.filter (fun object => isContent queryPrefix object.1)

/-- **The pages that a list request is answered with.** How much is on a page is up to the
store. -/
structure ObjectPages (store : ObjectStore ι) where
  pages : Str → List (ObjectList ι)
  commonPrefixes : ∀ queryPrefix,
    (pages queryPrefix).flatMap ObjectList.commonPrefixes = (store.list queryPrefix).commonPrefixes
  contents : ∀ queryPrefix,
    (pages queryPrefix).flatMap ObjectList.contents = (store.list queryPrefix).contents

/-- The base prefix: the path without its initial slash. -/
def basePrefix (path : Str) : Str :=
  if path.length = 1 then [] else strSubN path 1 (path.length - 1) ++ ['/']

/-- The query prefix: the base prefix and the prefix of the expression, if it
has one. -/
def queryPrefix (basePrefix : Str) (expression : Option Str) : Str :=
  match regExpPrefix expression with
  | none => basePrefix
  | some expressionPrefix =>
    if basePrefix = [] then expressionPrefix else basePrefix ++ expressionPrefix

/-- The path of a common prefix: strip off base prefix and final `/`. -/
def pathInfo (basePrefix name : Str) : StorageInfo (Option ι) :=
  { name := strSubN name basePrefix.length (name.length - basePrefix.length - 1), type := .path, info := none }

def fileInfo (basePrefix : Str) (object : Str × ι) : StorageInfo (Option ι) :=
  { name := if basePrefix = [] then object.1 else object.1.drop basePrefix.length, type := .file
    info := some object.2 }

/-- The files of a page. The last one is held back until there is a new file, if
only on a later page. -/
def storageObjectListFiles : Option (StorageInfo (Option ι)) → List (StorageInfo (Option ι)) →
    List (StorageInfo (Option ι)) × Option (StorageInfo (Option ι))
  | infoLast, [] => ([], infoLast)
  | infoLast, info :: fileList =>
    let (result, infoEnd) := storageObjectListFiles (some info) fileList
    match infoLast with
    | none => (result, infoEnd)
    | some last => (if last.name ≠ info.name then last :: result else result, infoEnd)

/-- The pages: of each the paths are reported before the files. -/
def storageObjectListPages (basePrefix : Str) :
    Option (StorageInfo (Option ι)) → List (ObjectList ι) → List (StorageInfo (Option ι))
  | infoLast, [] => infoLast.toList
  | infoLast, page :: pages =>
    let (fileList, infoLast) := storageObjectListFiles infoLast (page.contents.map (fileInfo basePrefix))
    page.commonPrefixes.map (pathInfo basePrefix) ++ fileList ++ storageObjectListPages basePrefix infoLast pages

/-- **List a path** (`storageS3ListInternal`, `storageAzureListInternal`) at
the level type or more, without recursion and without a target time. -/
def storageObjectListInternal (pages : Str → List (ObjectList ι)) (path : Str) (expression : Option Str) :
    List (StorageInfo (Option ι)) :=
  let basePrefix := basePrefix path
  storageObjectListPages basePrefix none (pages (queryPrefix basePrefix expression))

/-- **An iterator over an object store**. The driver may be given another
expression than the one that the names are matched with. -/
def objectIterator (regExpNew : Str → Str → Bool) (pages : Str → List (ObjectList ι)) (path : Str)
    (recurse : Bool) (sortOrder : Option SortOrder) (expression driverExpression : Option Str) :
    StorageIteratorParam (Option ι) where
  list path := some (storageObjectListInternal pages path driverExpression)
  path := path
  recurse := recurse
  sortOrder := sortOrder
  regExp := expression.map regExpNew

end PgxBackup
