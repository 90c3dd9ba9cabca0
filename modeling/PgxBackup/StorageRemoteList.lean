import PgxBackup.PackNext
import PgxBackup.StorageIterator

/-!
# A storage list over the protocol

The remote lists a path with its own driver and sends one object for each
entry. The time is sent as the difference to the entry before; the mode, the
ids and the names of the owners are left out where they did not change. Writer
and reader each keep what the last entry said, in a structure and with code of
their own.

Strings are written as `String`s and read as the bytes that were found, so
what is made of strings is generic in their type.
-/

namespace PgxBackup

namespace StorageRemote

/-! ## Storage info -/

/-- `StorageInfoLevel`. A driver is never asked for the default level: it was
replaced by one that the driver supports before. -/
inductive StorageInfoLevel
  | levelExists
  | levelType
  | levelBasic
  | levelDetail
  deriving DecidableEq, Repr

def StorageInfoLevel.toU32 : StorageInfoLevel → UInt32
  | .levelExists => 1
  | .levelType => 2
  | .levelBasic => 3
  | .levelDetail => 4

/-- The level with a number, the default level being none. -/
def StorageInfoLevel.ofU32? (value : UInt32) : Option StorageInfoLevel :=
  [.levelExists, .levelType, .levelBasic, .levelDetail].find? (fun level => level.toU32 = value)

def storageTypeToU32 : StorageType → UInt32
  | .file => 0
  | .path => 1
  | .link => 2
  | .special => 3

/-- The type with a number. No type has a number above three, and none is sent. -/
def storageTypeOfU32 (value : UInt32) : StorageType :=
  if value = 0 then .file
  else if value = 1 then .path
  else if value = 2 then .link
  else .special

/-- `StorageInfo`. -/
structure StorageInfo (σ : Type) where
  name : Option σ
  level : StorageInfoLevel
  isPresent : Bool
  type : StorageType := .file
  size : UInt64 := 0
  timeModified : Int64 := 0
  versionId : Option σ := none
  mode : UInt32 := 0
  userId : UInt32 := 0
  groupId : UInt32 := 0
  user : Option σ := none
  group : Option σ := none
  linkDestination : Option σ := none
  deriving DecidableEq

/-! ## Storage list -/

/-- `StorageListInfo`, where the fields that the level does not have keep their
zeros. -/
structure StorageListInfo (σ : Type) where
  name : σ
  type : StorageType := .file
  mode : UInt32 := 0
  size : UInt64 := 0
  timeModified : Int64 := 0
  versionId : Option σ := none
  user : Option σ := none
  group : Option σ := none
  userId : UInt32 := 0
  groupId : UInt32 := 0
  linkDestination : Option σ := none
  deriving DecidableEq

/-- `StorageList`. -/
structure StorageList (σ : Type) (level : StorageInfoLevel) where
  list : List (StorageListInfo σ)
  /-- Users and groups. -/
  ownerList : List (Option σ)
  deriving DecidableEq

/-- A list that a driver returned: as many entries as there can be in a list,
whose room is an `unsigned int` that doubles. -/
structure DriverList (level : StorageInfoLevel) extends StorageList ByteStr level where
  size_le : list.length ≤ 2 ^ 31

/-- `storageLstNew`. -/
def storageLstNew {σ : Type} (level : StorageInfoLevel) : StorageList σ level := ⟨[], []⟩

/-- `strLstAddIfMissing`: the string that is in the list then. -/
def strLstAddIfMissing (strLst : List (Option (List UInt8))) (string : Option (List UInt8)) :
    Option (List UInt8) × List (Option (List UInt8)) :=
  match strLst.find? (fun other => other.map strZ = string.map strZ) with
  | some found => (found, strLst)
  | none => (string.map strZ, strLst ++ [string.map strZ])

/-- `storageLstInsert` at the end (`storageLstAdd`). -/
def storageLstAdd {level : StorageInfoLevel} (this : StorageList (List UInt8) level)
    (info : StorageInfo (List UInt8)) : Except Error (StorageList (List UInt8) level) := do
  let some name := info.name | .error ⟨.assertError, "this != NULL".toList⟩
  let (user, ownerListUser) := strLstAddIfMissing this.ownerList info.user
  let (group, ownerListGroup) := strLstAddIfMissing ownerListUser info.group
  match level with
  | .levelDetail => .ok ⟨this.list ++ [{
      name := strZ name
      mode := info.mode
      user := user
      group := group
      userId := info.userId
      groupId := info.groupId
      linkDestination := info.linkDestination.map strZ
      size := info.size
      timeModified := info.timeModified
      versionId := info.versionId.map strZ
      type := info.type }], ownerListGroup⟩
  | .levelBasic => .ok ⟨this.list ++ [{
      name := strZ name
      size := info.size
      timeModified := info.timeModified
      versionId := info.versionId.map strZ
      type := info.type }], this.ownerList⟩
  | .levelType => .ok ⟨this.list ++ [{ name := strZ name, type := info.type }], this.ownerList⟩
  | .levelExists => .ok ⟨this.list ++ [{ name := strZ name }], this.ownerList⟩

/-- `storageLstGet`, of an entry in the list. -/
def storageLstGet {σ : Type} (level : StorageInfoLevel) (listInfo : StorageListInfo σ) : StorageInfo σ :=
  match level with
  | .levelDetail => {
      name := some listInfo.name
      isPresent := true
      level := level
      mode := listInfo.mode
      user := listInfo.user
      group := listInfo.group
      userId := listInfo.userId
      groupId := listInfo.groupId
      linkDestination := listInfo.linkDestination
      size := listInfo.size
      timeModified := listInfo.timeModified
      versionId := listInfo.versionId
      type := listInfo.type }
  | .levelBasic => {
      name := some listInfo.name
      isPresent := true
      level := level
      size := listInfo.size
      timeModified := listInfo.timeModified
      versionId := listInfo.versionId
      type := listInfo.type }
  | .levelType =>
    { name := some listInfo.name, isPresent := true, level := level, type := listInfo.type }
  | .levelExists => { name := some listInfo.name, isPresent := true, level := level }

/-- All entries of a list. -/
def StorageList.infos {σ : Type} {level : StorageInfoLevel} (this : StorageList σ level) :
    List (StorageInfo σ) :=
  this.list.map (storageLstGet level)

/-! ## Writing -/

/-- `StorageRemoteInfoProtocolWriteData`. -/
structure StorageRemoteInfoProtocolWriteData where
  timeModifiedLast : Int64 := 0
  modeLast : UInt32 := 0
  userIdLast : UInt32 := 0
  groupIdLast : UInt32 := 0
  user : Option ByteStr := none
  group : Option ByteStr := none

/-- Write the name of an owner, after whether there is none. -/
def storageRemoteOwnerPut (write : PackWrite) (owner defaultValue : Option ByteStr) :
    Except Error PackWrite :=
  match owner with
  | none => pckWriteBool write true 0 false 0
  | some owner => do
    let write ← pckWriteBool write false 0 false 0
    pckWriteStr write (some owner) 0 false defaultValue

/-- The defaults for the next call. -/
def StorageRemoteInfoProtocolWriteData.store (data : StorageRemoteInfoProtocolWriteData)
    (info : StorageInfo ByteStr) : StorageRemoteInfoProtocolWriteData where
  timeModifiedLast := info.timeModified
  modeLast := info.mode
  userIdLast := info.userId
  groupIdLast := info.groupId
  user := if info.user.isSome && !strEq info.user data.user then info.user else data.user
  group := if info.group.isSome && !strEq info.group data.group then info.group else data.group

/-- `storageRemoteInfoProtocolPut`. -/
def storageRemoteInfoProtocolPut (data : StorageRemoteInfoProtocolWriteData) (write : PackWrite)
    (info : StorageInfo ByteStr) :
    Except Error (StorageRemoteInfoProtocolWriteData × PackWrite) := do
  let write ← pckWriteU32 write (storageTypeToU32 info.type) 0 false 0
  -- the difference of two times wraps around like the sum that undoes it
  let write ← pckWriteTime write (info.timeModified - data.timeModifiedLast) 0 false 0
  let write ← if info.type = .file then pckWriteU64 write info.size 0 false 0 else pure write
  let write ← pckWriteStr write info.versionId 0 false none
  let write ← if info.level = .levelDetail then do
      let write ← pckWriteMode write info.mode 0 false data.modeLast
      let write ← pckWriteU32 write info.userId 0 false data.userIdLast
      let write ← storageRemoteOwnerPut write info.user data.user
      let write ← pckWriteU32 write info.groupId 0 false data.groupIdLast
      let write ← storageRemoteOwnerPut write info.group data.group
      if info.type = .link then pckWriteStr write info.linkDestination 0 false none else pure write
    else pure write
  .ok (data.store info, write)

def storageRemoteListPut (write : PackWrite) :
    StorageRemoteInfoProtocolWriteData → List (StorageInfo ByteStr) → Except Error PackWrite
  | _, [] => .ok write
  | data, info :: infos => do
    let write ← pckWriteObjBegin write 0
    let write ← pckWriteStr write info.name 0 false none
    let (data, write) ← storageRemoteInfoProtocolPut data write info
    let write ← pckWriteObjEnd write
    storageRemoteListPut write data infos

/-- The list function of a driver. -/
abbrev StorageInterfaceList :=
  List UInt8 → (level : StorageInfoLevel) → Int64 → Option (DriverList level)

/-- `storageRemoteListProtocol`, from the pack of the request to the pack of the
response. -/
def storageRemoteListProtocol (driver : StorageInterfaceList) (param : List UInt8) :
    Except Error (List UInt8) := do
  let read := pckReadNew none param
  let (path, read) ← pckReadStr read 0 none
  let (level, read) ← pckReadU32 read 0 0
  let (targetTime, _) ← pckReadTime read 0 0
  let some path := path | .error ⟨.assertError, "path != NULL".toList⟩
  let some level := StorageInfoLevel.ofU32? level
    | .error ⟨.assertError, "level != storageInfoLevelDefault".toList⟩
  let list := driver path level targetTime
  let write ← pckWriteBool (pckWriteNew none) list.isSome 0 true 0
  let write ← match list with
    | some list => storageRemoteListPut write {} list.infos
    | none => pure write
  -- the pack is ended when the response is sent
  let write ← pckWriteEnd write
  .ok (pckWriteResult write)

/-! ## Reading -/

/-- `StorageRemoteInfoData`. -/
structure StorageRemoteInfoData where
  timeModifiedLast : Int64 := 0
  modeLast : UInt32 := 0
  userIdLast : UInt32 := 0
  groupIdLast : UInt32 := 0
  user : Option (List UInt8) := none
  group : Option (List UInt8) := none

/-- `strEq`, of strings that were read. -/
def strEqRead (a b : Option (List UInt8)) : Bool :=
  match a, b with
  | some a, some b => decide (a.length = b.length) && decide (strZ a = strZ b)
  | none, none => true
  | _, _ => false

def storageRemoteOwnerGet (read : PackRead) (defaultValue : Option (List UInt8)) :
    Except Error (Option (List UInt8) × PackRead) := do
  let (null, read) ← pckReadBool read 0 0
  if null then .ok (none, read) else pckReadStr read 0 defaultValue

/-- The fields of the detail level. -/
def storageRemoteInfoGetDetail (data : StorageRemoteInfoData) (read : PackRead)
    (info : StorageInfo (List UInt8)) : Except Error (StorageInfo (List UInt8) × PackRead) := do
  let (mode, read) ← pckReadMode read 0 data.modeLast
  let (userId, read) ← pckReadU32 read 0 data.userIdLast
  let (user, read) ← storageRemoteOwnerGet read data.user
  let (groupId, read) ← pckReadU32 read 0 data.groupIdLast
  let (group, read) ← storageRemoteOwnerGet read data.group
  let (linkDestination, read) ←
    if info.type = .link then pckReadStr read 0 none else .ok (info.linkDestination, read)
  .ok ({ info with mode, userId, user, groupId, group, linkDestination }, read)

/-- The defaults for the next call. -/
def StorageRemoteInfoData.store (data : StorageRemoteInfoData) (info : StorageInfo (List UInt8)) :
    StorageRemoteInfoData where
  timeModifiedLast := info.timeModified
  modeLast := info.mode
  userIdLast := info.userId
  groupIdLast := info.groupId
  user := if info.user.isSome && !strEqRead info.user data.user then info.user.map strZ else data.user
  group :=
    if info.group.isSome && !strEqRead info.group data.group then info.group.map strZ else data.group

/-- `storageRemoteInfoGet`. -/
def storageRemoteInfoGet (data : StorageRemoteInfoData) (read : PackRead)
    (info : StorageInfo (List UInt8)) :
    Except Error (StorageRemoteInfoData × StorageInfo (List UInt8) × PackRead) := do
  let (type, read) ← pckReadU32 read 0 0
  let (timeModified, read) ← pckReadTime read 0 0
  let info := { info with
    type := storageTypeOfU32 type, timeModified := timeModified + data.timeModifiedLast }
  let (size, read) ← (if info.type = .file then pckReadU64 read 0 0 else .ok (info.size, read))
  let (versionId, read) ← pckReadStr read 0 none
  let info := { info with size, versionId }
  let (info, read) ←
    (if info.level = .levelDetail then storageRemoteInfoGetDetail data read info else .ok (info, read))
  .ok (data.store info, info, read)

/-- The entries up to the end of the pack. Every entry begins with a tag, so
the bytes that are left bound the number of entries. -/
def storageRemoteListGet {level : StorageInfoLevel} :
    ℕ → StorageRemoteInfoData → StorageList (List UInt8) level → PackRead →
      Except Error (StorageList (List UInt8) level)
  | 0, _, _, _ => .error ⟨.formatError, "unexpected EOF".toList⟩
  | fuel + 1, parseData, result, read => do
    let (next, read) ← pckReadNext read
    if next then
      let read ← pckReadObjBegin read 0
      let (name, read) ← pckReadStr read 0 none
      let (parseData, info, read) ←
        storageRemoteInfoGet parseData read { name, level, isPresent := true }
      let result ← storageLstAdd result info
      let read ← pckReadObjEnd read
      storageRemoteListGet fuel parseData result read
    else .ok result

/-- `storageRemoteList`, where `request` sends a pack to the remote and returns
the pack of the response. -/
def storageRemoteList (request : List UInt8 → Except Error (List UInt8)) (path : ByteStr)
    (level : StorageInfoLevel) (targetTime : Int64) :
    Except Error (Option (StorageList (List UInt8) level)) := do
  let write ← pckWriteStr (pckWriteNew none) (some path) 0 false none
  let write ← pckWriteU32 write level.toU32 0 false 0
  let write ← pckWriteTime write targetTime 0 false 0
  let write ← pckWriteEnd write
  let response ← request (pckWriteResult write)
  let (found, read) ← pckReadBool (pckReadNew none response) 0 0
  if found then
    let result ← storageRemoteListGet (read.bytes.length + 1) {} (storageLstNew level) read
    .ok (some result)
  else .ok none

end StorageRemote

end PgxBackup
