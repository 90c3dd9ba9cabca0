import PgxBackup.ArchivePushList
import PgxBackup.Convert
import PgxBackup.ManifestUnlogged
import PgxBackup.RestoreJob

/-!
# Selective restore

A restore may be limited to some of the databases. The files of the others are
restored with zeros, so that the database can be dropped afterwards. Which
databases there are is found out from the list of databases in the manifest,
for those of the system, and from the names of the files.

The databases to zero are put together in one list of ids. An id that is
included is removed from the list while the options are looked at, and the same
list says which databases exist.
-/

namespace PgxBackup

open Pattern

/-! ## Databases -/

/-- `pgDbIsTemplate`. -/
def pgDbIsTemplate (name : Str) : Bool := name = "template0".toList || name = "template1".toList

/-- `pgDbIsSystem`. -/
def pgDbIsSystem (name : Str) : Bool := name = "postgres".toList || pgDbIsTemplate name

/-- `FirstNormalObjectId`. -/
def FirstNormalObjectId : ℕ := 16384

/-- `pgDbIsSystemId`. -/
def pgDbIsSystemId (id : ℕ) : Bool := id < FirstNormalObjectId

/-- `strLstAddIfMissing`. -/
def strLstAddIfMissing (this : List Str) (string : Str) : List Str :=
  if string ∈ this then this else this ++ [string]

/-- The id of a database as a string (`varStrForce(VARUINT(id))`). -/
def dbIdStr (id : ℕ) : Str := Nat.toDigits 10 id

/-- `manifestDbFindDefault` with a default of `NULL`. -/
def manifestDbFind (manifest : Manifest) (name : Str) : Option ManifestDb :=
  manifest.dbList.find? (fun db => db.name = name)

/-! ## The databases of a manifest -/

/-- The path of the version in the tablespaces. -/
def Manifest.tablespaceId (manifest : Manifest) : Str :=
  pgTablespaceId manifest.data.pgVersion manifest.data.pgCatalogVersion

/-- `^pg_data/base/[0-9]+/PG_VERSION`. -/
def baseRegExp : Pattern Char :=
  seqs [lit "pg_data/base/".toList, numberExp, lit "/PG_VERSION".toList]

/-- `^pg_tblspc/[0-9]+/%s/[0-9]+/PG_VERSION`. -/
def tablespaceRegExp (tablespaceId : Str) : Pattern Char :=
  seqs [lit "pg_tblspc/".toList, numberExp, lit "/".toList, strExp tablespaceId, lit "/".toList, numberExp,
    lit "/PG_VERSION".toList]

/-- `regExpMatch` for an expression that begins with a circumflex. -/
def regExpMatch (expression : Pattern Char) (s : Str) : Bool := !(expression.rest s).isEmpty

/-- Does a file show that there is a database? -/
def Manifest.isDbFile (manifest : Manifest) (fileName : Str) : Bool :=
  regExpMatch baseRegExp fileName || regExpMatch (tablespaceRegExp manifest.tablespaceId) fileName

/-- The id of the database of such a file (`strBase(strPath(fileName))`). -/
def fileDbId (fileName : Str) : Str := strBaseZ (strPath fileName)

/-- The ids of databases that were found. -/
structure SelectDbs where
  systemDbIdList : List Str
  dbList : List Str
  deriving DecidableEq, Repr

/-- A database of the manifest, which counts if it is one of the system. -/
def SelectDbs.system (dbs : SelectDbs) (systemDb : ManifestDb) : SelectDbs :=
  if pgDbIsSystem systemDb.name || pgDbIsSystemId systemDb.id then
    -- build the system id list and add to the list for logging and checking
    ⟨dbs.systemDbIdList ++ [dbIdStr systemDb.id], dbs.dbList ++ [dbIdStr systemDb.id]⟩
  else dbs

def SelectDbs.file (manifest : Manifest) (dbs : SelectDbs) (fileName : Str) : Except Error SelectDbs :=
  if manifest.isDbFile fileName then do
    let dbId := fileDbId fileName
    let id ← cvtZToUInt dbId
    -- a system database that was added after the backup began is only in the file list
    .ok ⟨if pgDbIsSystemId id then strLstAddIfMissing dbs.systemDbIdList dbId else dbs.systemDbIdList,
      strLstAddIfMissing dbs.dbList dbId⟩
  else .ok dbs

def selectDbs (manifest : Manifest) : Except Error SelectDbs :=
  (manifest.fileList.map ManifestFile.name).foldlM (SelectDbs.file manifest)
    (manifest.dbList.foldl SelectDbs.system ⟨[], []⟩)

/-! ## The options -/

/-- The id of a database in the list that is given by its id or else by its
name. -/
def selectDb (manifest : Manifest) (dbList : List Str) (name : Str) : Option Str :=
  if name ∈ dbList then some name
  else
    match manifestDbFind manifest name with
    | none => none
    | some db => if dbIdStr db.id ∈ dbList then some (dbIdStr db.id) else none

def selectExclude (manifest : Manifest) (dbList : List Str) : List Str → Except Error (List Str)
  | [] => .ok []
  | excludeDb :: excludeList =>
    match selectDb manifest dbList excludeDb with
    | none => .error ⟨.dbMissingError,
        "database to exclude '".toList ++ excludeDb ++ "' does not exist".toList⟩
    | some id => do
      let ids ← selectExclude manifest dbList excludeList
      .ok (id :: ids)

/-- Remove included databases from the list. -/
def selectInclude (manifest : Manifest) (systemDbIdList excludeDbIdList : List Str) :
    List Str → List Str → Except Error (List Str)
  | dbList, [] => .ok dbList
  | dbList, includeDb :: includeList =>
    match selectDb manifest dbList includeDb with
    | none => .error ⟨.dbMissingError,
        "database to include '".toList ++ includeDb ++ "' does not exist".toList⟩
    | some id =>
      if id ∈ systemDbIdList then
        .error ⟨.dbInvalidError,
          "system databases (template0, postgres, etc.) are included by default".toList⟩
      else if id ∈ excludeDbIdList then
        .error ⟨.dbInvalidError, "database to include '".toList ++ id ++ "' is in the exclude list".toList⟩
      else selectInclude manifest systemDbIdList excludeDbIdList (dbList.erase id) includeList

/-! ## The expression -/

/-- An id behind a slash. A number that was read from a file name may begin with
a plus sign, which in an expression repeats what is before it. -/
def slashIdExp (db : Str) : Pattern Char :=
  match db with
  | '+' :: digits => seq (many (· == '/')) (strExp digits)
  | digits => seq (lit "/".toList) (strExp digits)

/-- The alternatives of the expression for a database: its files in the base
and in the tablespaces. -/
def zeroExp (manifest : Manifest) (db : Str) : List (Pattern Char) :=
  seqs [lit "pg_data/base".toList, slashIdExp db, lit "/".toList] ::
    (manifest.targetList.filter (fun target => target.tablespaceId ≠ 0)).map (fun target =>
      seqs [strExp target.name, lit "/".toList, strExp manifest.tablespaceId, slashIdExp db, lit "/".toList])

/-- `restoreSelectiveExpression`: the alternatives of the expression, each of
which begins with a circumflex. -/
def restoreSelectiveExpression (manifest : Manifest) (dbExclude dbInclude : List Str) :
    Except Error (Option (List (Pattern Char))) := do
  if dbExclude = [] ∧ dbInclude = [] then .ok none
  else
    let dbs ← selectDbs manifest
    let dbList := strLstSort dbs.dbList .asc
    if dbList = [] then
      .error ⟨.formatError,
        "no databases found for selective restore\nHINT: is this a valid cluster?".toList⟩
    else
      let excludeDbIdList ← selectExclude manifest dbList dbExclude
      let dbList ← selectInclude manifest dbs.systemDbIdList excludeDbIdList dbList dbInclude
      let dbList :=
        -- only exclude specified databases in case there are none to include
        if dbInclude = [] then excludeDbIdList
        -- remove the system databases unless they are excluded explicitly
        else strLstMergeAnti dbList
          (strLstMergeAnti (strLstSort dbs.systemDbIdList .asc) (strLstSort excludeDbIdList .asc))
      if dbList = [] then .ok none else .ok (some (dbList.flatMap (zeroExp manifest)))

/-- `restoreFileZeroed` with the expression of a selective restore. -/
def selectiveFileZeroed (name : Str) (expression : Option (List (Pattern Char))) : Bool :=
  restoreFileZeroed name (expression.map (fun alternatives name => alternatives.any (regExpMatch · name)))

end PgxBackup
