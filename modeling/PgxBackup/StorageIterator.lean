import Mathlib.Data.List.Sort
import PgxBackup.Text

/-!
# Iterating over the entries of a path

An iterator returns the entries of a path one by one, and those of the paths
in it if it recurses. A driver lists one path at a time. The lists that were
not read to the end are kept on a stack; the entries of the list on top come
first. In descending order a path is returned after its content, so it is
looked at twice: first its content is put on the stack, then it is returned
and its content is skipped.
-/

namespace PgxBackup

inductive StorageType
  | file
  | path
  | link
  | special
  deriving DecidableEq, Repr

/-- An entry of a list (`StorageInfo`). What else there is of it depends on
the level that was asked for. -/
structure StorageInfo (ι : Type) where
  name : Str
  type : StorageType
  info : ι
  deriving DecidableEq, Repr

variable {ι : Type}

/-- Sort a list by name (`storageLstSort`). -/
def storageLstSort (list : List (StorageInfo ι)) : SortOrder → List (StorageInfo ι)
  | .asc => list.insertionSort (fun a b => a.name ≤ b.name)
  | .desc => list.insertionSort (fun a b => a.name ≥ b.name)

/-- The fields of `StorageIterator` that do not change. -/
structure StorageIteratorParam (ι : Type) where
  /-- The list function of the driver, with the level, the expression and the
  target time of the iterator; none if the path does not exist. -/
  list : Str → Option (List (StorageInfo ι))
  path : Str
  recurse : Bool
  /-- None is `sortOrderNone`. -/
  sortOrder : Option SortOrder
  /-- The parsed expression, if any. -/
  regExp : Option (Str → Bool)

/-- `StorageIteratorInfo`. -/
structure StorageIteratorInfo (ι : Type) where
  pathSub : Option Str
  list : List (StorageInfo ι)
  listIdx : ℕ
  pathContentSkip : Bool
  deriving DecidableEq, Repr

/-- The fields of `StorageIterator` that change; the stack has its top
first. -/
structure StorageIterator (ι : Type) where
  stack : List (StorageIteratorInfo ι)
  returnedNext : Bool
  infoNext : Option (StorageInfo ι)
  deriving DecidableEq, Repr

/-- The path to list for a subpath. -/
def StorageIteratorParam.pathFull (param : StorageIteratorParam ι) (pathSub : Option Str) : Str :=
  match pathSub with
  | none => param.path
  | some pathSub => param.path ++ '/' :: pathSub

/-- Name of an entry relative to the path that is iterated. -/
def nameSub (pathSub : Option Str) (name : Str) : Str :=
  match pathSub with
  | none => name
  | some pathSub => pathSub ++ '/' :: name

/-- Sort a list if requested. -/
def StorageIteratorParam.sort (param : StorageIteratorParam ι) (list : List (StorageInfo ι)) :
    List (StorageInfo ι) :=
  match param.sortOrder with
  | none => list
  | some sortOrder => storageLstSort list sortOrder

/-- **Check a path** (`storageItrPathAdd`): whether it exists, and what is
added to the stack if it has content. -/
def storageItrPathAdd (param : StorageIteratorParam ι) (pathSub : Option Str) :
    Bool × Option (StorageIteratorInfo ι) :=
  match param.list (param.pathFull pathSub) with
  | none => (false, none)
  | some [] => (true, none)
  | some list =>
    (true, some
      { pathSub := pathSub, list := param.sort list, listIdx := 0, pathContentSkip := false })

/-- **A new iterator** (`storageItrNew`), or `NULL`. -/
def storageItrNew (param : StorageIteratorParam ι) (errorOnMissing nullOnMissing : Bool) :
    Except Error (Option (StorageIterator ι)) :=
  let (exist, content) := storageItrPathAdd param none
  let this := { stack := content.toList, returnedNext := true, infoNext := none }
  if exist then .ok (some this)
  else if errorOnMissing then
    .error ⟨.pathMissingError,
      "unable to list file info for missing path '".toList ++ param.path ++ "'".toList⟩
  else if nullOnMissing then .ok none
  else .ok (some this)

/-- Does the name match, if there is an expression? -/
def StorageIteratorParam.isMatch (param : StorageIteratorParam ι) (name : Str) : Bool :=
  match param.regExp with
  | none => true
  | some regExp => regExp name

/-- **One turn of the loops of `storageItrMore`**: the stack afterwards, and
the info that is to be returned, if any. There is none for an empty stack. -/
def storageItrTurn (param : StorageIteratorParam ι) :
    List (StorageIteratorInfo ι) → Option (List (StorageIteratorInfo ι) × Option (StorageInfo ι))
  | [] => none
  | listInfo :: stack =>
    match listInfo.list[listInfo.listIdx]? with
    | none =>
      -- no more info, so free the list
      some (stack, none)
    | some info =>
      let infoNext := { info with name := nameSub listInfo.pathSub info.name }
      let content :=
        if info.type = .path ∧ param.recurse = true ∧ listInfo.pathContentSkip = false then
          (storageItrPathAdd param (some infoNext.name)).2
        else none
      let listInfo := { listInfo with pathContentSkip := false }
      if param.isMatch infoNext.name = false then
        -- the content may match even if the path does not
        some (content.toList ++ { listInfo with listIdx := listInfo.listIdx + 1 } :: stack, none)
      else if content.isSome ∧ param.sortOrder = some .desc then
        some (content.toList ++ { listInfo with pathContentSkip := true } :: stack, none)
      else
        some (content.toList ++ { listInfo with listIdx := listInfo.listIdx + 1 } :: stack,
          some infoNext)

/-- **Is there more?** (`storageItrMore`) The search of the stack takes a
number of turns. -/
def storageItrMore (param : StorageIteratorParam ι) :
    ℕ → StorageIterator ι → Option (Bool × StorageIterator ι)
  | 0, _ => none
  | fuel + 1, this =>
    if this.returnedNext = false then some (true, this)
    else
      match storageItrTurn param this.stack with
      | none => some (false, this)
      | some (stack, none) => storageItrMore param fuel { this with stack := stack }
      | some (stack, some infoNext) =>
        some (true, { stack := stack, returnedNext := false, infoNext := some infoNext })

/-- Get the next info (`storageItrNext`). -/
def storageItrNext (this : StorageIterator ι) : Option (StorageInfo ι) × StorageIterator ι :=
  (this.infoNext, { this with returnedNext := true })

/-! ## Iterating to the end -/

/-- Call `storageItrMore` a number of times more than once. -/
def storageItrMoreExtra (param : StorageIteratorParam ι) (fuel : ℕ) :
    ℕ → StorageIterator ι → Option (Bool × StorageIterator ι)
  | 0, this => storageItrMore param fuel this
  | extra + 1, this =>
    match storageItrMore param fuel this with
    | some (true, this) => storageItrMoreExtra param fuel extra this
    | result => result

/-- All infos until there is no more, with extra calls of `storageItrMore`
before each one. -/
def storageItrAll (param : StorageIteratorParam ι) (limit : ℕ) (extra : ℕ → ℕ) :
    ℕ → ℕ → StorageIterator ι → Option (List (StorageInfo ι))
  | 0, _, _ => none
  | fuel + 1, call, this =>
    match storageItrMoreExtra param limit (extra call) this with
    | none => none
    | some (false, _) => some []
    | some (true, this) =>
      match storageItrNext this with
      | (none, _) => none
      | (some info, this) =>
        (storageItrAll param limit extra fuel (call + 1) this).map (info :: ·)

end PgxBackup
