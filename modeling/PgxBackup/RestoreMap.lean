import PgxBackup.Keyed
import PgxBackup.KeyValue
import PgxBackup.ManifestLink
import PgxBackup.ManifestUnlogged
import PgxBackup.RestoreJob

/-!
# Mapping the manifest of a restore

Before a restore the paths in the manifest are changed to what was asked for:
the path of the data directory, those of the tablespaces, and those of the
links. A link is kept twice in a manifest, as a link and as a target, and the
two lists are changed by calls of their own.

The names in a list of the manifest are distinct, so the first item with a name
is the one that a search finds.
-/

namespace PgxBackup

/-! ## Targets and links -/

/-- `manifestTargetFindDefault` with a default of `NULL`. -/
def manifestTargetFindDefault (manifest : Manifest) (name : Str) : Option ManifestTarget :=
  Keyed.get ManifestTarget.name manifest.targetList name

/-- `manifestTargetAdd`. -/
def manifestTargetAdd (manifest : Manifest) (target : ManifestTarget) : Manifest :=
  { manifest with targetList := manifest.targetList ++ [target] }

/-- `manifestTargetUpdate`. -/
def manifestTargetUpdate (manifest : Manifest) (name path : Str) (file : Option Str) : Except Error Manifest :=
  match manifestTargetFindDefault manifest name with
  | none => .error ⟨.assertError, "unable to find '".toList ++ name ++ "' in manifest target list".toList⟩
  | some _ =>
    .ok { manifest with
      targetList := Keyed.update ManifestTarget.name name
        (fun target => { target with path := path, file := file }) manifest.targetList }

/-- `manifestTargetRemove`. -/
def manifestTargetRemove (manifest : Manifest) (name : Str) : Except Error Manifest :=
  match manifestTargetFindDefault manifest name with
  | none => .error ⟨.assertError, "unable to remove '".toList ++ name ++ "' from manifest target list".toList⟩
  | some _ => .ok { manifest with targetList := Keyed.remove ManifestTarget.name name manifest.targetList }

/-- `manifestLinkFindDefault` with a default of `NULL`. -/
def manifestLinkFindDefault (manifest : Manifest) (name : Str) : Option ManifestLink :=
  Keyed.get ManifestLink.name manifest.linkList name

/-- `manifestLinkAdd`. -/
def manifestLinkAdd (manifest : Manifest) (link : ManifestLink) : Manifest :=
  { manifest with linkList := manifest.linkList ++ [link] }

/-- `manifestLinkUpdate`. -/
def manifestLinkUpdate (manifest : Manifest) (name destination : Str) : Except Error Manifest :=
  match manifestLinkFindDefault manifest name with
  | none => .error ⟨.assertError, "unable to find '".toList ++ name ++ "' in manifest link list".toList⟩
  | some _ =>
    .ok { manifest with
      linkList := Keyed.update ManifestLink.name name
        (fun link => { link with destination := destination }) manifest.linkList }

/-- `manifestLinkRemove`. -/
def manifestLinkRemove (manifest : Manifest) (name : Str) : Except Error Manifest :=
  match manifestLinkFindDefault manifest name with
  | none => .error ⟨.assertError, "unable to remove '".toList ++ name ++ "' from manifest link list".toList⟩
  | some _ => .ok { manifest with linkList := Keyed.remove ManifestLink.name name manifest.linkList }

/-- `manifestPathFindDefault` with a default of `NULL`. -/
def manifestPathFindDefault (manifest : Manifest) (name : Str) : Option ManifestPath :=
  Keyed.get ManifestPath.name manifest.pathList name

/-- `manifestPathFind`. -/
def manifestPathFind (manifest : Manifest) (name : Str) : Except Error ManifestPath :=
  match manifestPathFindDefault manifest name with
  | none => .error ⟨.assertError, "unable to find '".toList ++ name ++ "' in manifest path list".toList⟩
  | some path => .ok path

/-! ## The mappings -/

/-- The options that say what is mapped. -/
structure RestoreMapConfig where
  pgPath : Str
  tablespaceMap : Option (List (Str × Str))
  tablespaceMapAllPath : Option Str
  linkMap : Option (List (Str × Str))
  linkAll : Bool
  deriving DecidableEq, Repr

/-- Remap the data directory. -/
def restoreMapBase (config : RestoreMapConfig) (manifest : Manifest) : Except Error Manifest := do
  let targetBase ← manifestTargetBase manifest
  if targetBase.path ≠ config.pgPath then manifestTargetUpdate manifest targetBase.name config.pgPath none
  else .ok manifest

/-- The id of a tablespace as a string (`varStrForce(VARUINT(tablespaceId))`). -/
def tablespaceIdStr (target : ManifestTarget) : Str := Nat.toDigits 10 target.tablespaceId

/-- The individual mapping for a tablespace, with the keys of the map that it
uses. -/
def restoreMapTablespaceOne (tablespaceMap : List (Str × Str)) (target : ManifestTarget) :
    Except Error (Option Str × List Str) :=
  let tablespacePathByName := target.tablespaceName.bind (kvGet tablespaceMap)
  let tablespacePathById := kvGet tablespaceMap (tablespaceIdStr target)
  let tablespaceRemapped := (if tablespacePathByName.isSome then target.tablespaceName.toList else []) ++
    if tablespacePathById.isSome then [tablespaceIdStr target] else []
  match tablespacePathByName, tablespacePathById with
  | some byName, some byId =>
    if byName ≠ byId then
      .error ⟨.tablespaceMapError, "tablespace remapped by name '".toList ++ target.tablespaceName.getD [] ++
        "' and id ".toList ++ tablespaceIdStr target ++ " with different paths".toList⟩
    else .ok (some byName, tablespaceRemapped)
  | some byName, none => .ok (some byName, tablespaceRemapped)
  | none, tablespacePathById => .ok (tablespacePathById, tablespaceRemapped)

/-- Remap a tablespace if a mapping is found. -/
def restoreMapTablespace (config : RestoreMapConfig) (state : Manifest × List Str) (target : ManifestTarget) :
    Except Error (Manifest × List Str) :=
  if target.tablespaceId ≠ 0 then do
    let one ← (match config.tablespaceMap with
      | none => .ok (none, [])
      | some tablespaceMap => restoreMapTablespaceOne tablespaceMap target)
    -- if not individual mapping check if all tablespaces are being remapped
    let tablespacePath := one.1.or (config.tablespaceMapAllPath.map (fun path =>
      path ++ "/".toList ++ target.tablespaceName.getD []))
    match tablespacePath with
    | none => .ok (state.1, state.2 ++ one.2)
    | some path => do
      let manifest ← manifestTargetUpdate state.1 target.name path none
      let manifest ← manifestLinkUpdate manifest ("pg_data/".toList ++ target.name) path
      .ok (manifest, state.2 ++ one.2)
  else .ok state

def restoreMapTablespaces (config : RestoreMapConfig) (manifest : Manifest) : Except Error Manifest :=
  if config.tablespaceMap ≠ none ∨ config.tablespaceMapAllPath ≠ none then do
    -- neither the names nor the ids that the loop reads are changed by it
    let state ← manifest.targetList.foldlM (restoreMapTablespace config) (manifest, [])
    -- error on invalid tablespaces
    match (config.tablespaceMap.getD []).find? (fun pair => pair.1 ∉ state.2) with
    | some pair =>
      .error ⟨.tablespaceMapError, "unable to remap invalid tablespace '".toList ++ pair.1 ++ "'".toList⟩
    | none => .ok state.1
  else .ok manifest

/-- If the link is a file separate the file name from the path. -/
def restoreMapLinkFile (link : Str) (target : ManifestTarget) : Except Error ManifestTarget :=
  match target.file with
  | none => .ok target
  | some _ =>
    if strPath target.path = [] then
      .error ⟨.linkMapError, "'".toList ++ target.path ++
        "' is not long enough to be the destination for file link '".toList ++ link ++ "'".toList⟩
    else .ok { target with file := some (strBaseZ target.path), path := strPath target.path }

def restoreMapLinkUpdate (manifest : Manifest) (link linkPath : Str) (target : ManifestTarget) :
    Except Error Manifest :=
  if target.type ≠ .link then .error ⟨.formatError, "target must be a link".toList⟩
  else if target.tablespaceId ≠ 0 then
    .error ⟨.linkMapError, "unable to remap tablespace '".toList ++ link ++
      "'\nHINT: use 'tablespace-map' option to remap tablespaces.".toList⟩
  else do
    let manifest ← manifestLinkUpdate manifest target.name linkPath
    let target ← restoreMapLinkFile link { target with path := linkPath }
    manifestTargetUpdate manifest target.name target.path target.file

def restoreMapLinkCreate (manifest : Manifest) (link linkPath manifestName : Str) : Except Error Manifest :=
  let pathExists := (manifestPathFindDefault manifest manifestName).isSome
  let fileExists := manifestFileExists manifest.fileList manifestName
  if pathExists ∧ fileExists then .error ⟨.formatError, "link may not be both file and path".toList⟩
  else if !fileExists && !pathExists then
    .error ⟨.linkMapError, "unable to map link '".toList ++ link ++
      "'\nHINT: Does the link reference a valid backup path or file?".toList⟩
  else do
    let pathBase ← manifestPathFind manifest "pg_data".toList
    let manifest := manifestLinkAdd manifest
      { name := manifestName, destination := linkPath, group := pathBase.group, user := pathBase.user }
    let target ← restoreMapLinkFile link
      { name := manifestName, path := linkPath, type := .link, tablespaceId := 0, tablespaceName := none
        -- set to something invalid until the file name is separated from the path
        file := if fileExists then some ".".toList else none }
    .ok (manifestTargetAdd manifest target)

def restoreMapLink (linkMap : List (Str × Str)) (manifest : Manifest) (link : Str) : Except Error Manifest :=
  let linkPath := (kvGet linkMap link).getD []
  let manifestName := "pg_data/".toList ++ link
  match manifestTargetFindDefault manifest manifestName with
  | some target => restoreMapLinkUpdate manifest link linkPath target
  | none => restoreMapLinkCreate manifest link linkPath manifestName

def restoreMapLinks (config : RestoreMapConfig) (manifest : Manifest) : Except Error Manifest :=
  match config.linkMap with
  | none => .ok manifest
  | some linkMap => (strLstSort (kvKeyList linkMap) .asc).foldlM (restoreMapLink linkMap) manifest

/-- Was the link of a target not remapped? -/
def notRemapped (config : RestoreMapConfig) (target : ManifestTarget) : Prop :=
  target.type = .link ∧ target.tablespaceId = 0 ∧
    (config.linkMap.bind (fun linkMap => kvGet linkMap (target.name.drop 8))) = none

instance (config : RestoreMapConfig) (target : ManifestTarget) : Decidable (notRemapped config target) :=
  inferInstanceAs (Decidable (_ ∧ _ ∧ _))

/-- Remove a link that was not remapped. -/
def restoreMapRemove (config : RestoreMapConfig) (manifest : Manifest) (target : ManifestTarget) :
    Except Error Manifest :=
  if notRemapped config target then do
    let manifest ← manifestLinkRemove manifest target.name
    manifestTargetRemove manifest target.name
  else .ok manifest

/-- `restoreManifestMap`. -/
def restoreManifestMap (config : RestoreMapConfig) (manifest : Manifest) : Except Error Manifest := do
  let manifest ← restoreMapBase config manifest
  let manifest ← restoreMapTablespaces config manifest
  let manifest ← restoreMapLinks config manifest
  if config.linkAll then .ok manifest
  -- if all links are not being restored then remove those that were not remapped
  else manifest.targetList.foldlM (restoreMapRemove config) manifest

end PgxBackup
