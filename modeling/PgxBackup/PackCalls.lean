import PgxBackup.PackTag

/-!
# Sequences of pack calls

A pack is written by a sequence of calls, and read by the sequence of the
corresponding calls with the same defaults. A field that was written as a
`NULL` may be read by any call, which then returns its default.
-/

namespace PgxBackup

/-! ## Calls -/

/-- A write call with an automatic id: the value, `defaultWrite` and
`defaultValue`. -/
inductive PckWriteCall
  | null
  | bool (value defaultWrite : Bool) (defaultValue : UInt32)
  | i32 (value : Int32) (defaultWrite : Bool) (defaultValue : Int32)
  | i64 (value : Int64) (defaultWrite : Bool) (defaultValue : Int64)
  | mode (value : UInt32) (defaultWrite : Bool) (defaultValue : UInt32)
  | u32 (value : UInt32) (defaultWrite : Bool) (defaultValue : UInt32)
  | u64 (value : UInt64) (defaultWrite : Bool) (defaultValue : UInt64)
  | strId (value : UInt64) (defaultWrite : Bool) (defaultValue : UInt64)
  | time (value : Int64) (defaultWrite : Bool) (defaultValue : Int64)
  | str (value : Option ByteStr) (defaultWrite : Bool) (defaultValue : Option ByteStr)
  | bin (value : Option Buffer)
  | pack (value : Option Buffer)
  | strLst (value : Option StringList)
  | arrayBegin
  | arrayEnd
  | objBegin
  | objEnd

/-- A read call with an automatic id. -/
inductive PckReadCall
  | null
  | bool (defaultValue : UInt32)
  | i32 (defaultValue : Int32)
  | i64 (defaultValue : Int64)
  | mode (defaultValue : UInt32)
  | u32 (defaultValue : UInt32)
  | u64 (defaultValue : UInt64)
  | strId (defaultValue : UInt64)
  | time (defaultValue : Int64)
  | str (defaultValue : Option ByteStr)
  | bin
  | pack
  | strLst
  | arrayBegin
  | arrayEnd
  | objBegin
  | objEnd

/-- What a read call returns. -/
inductive PckValue
  | void
  | null (value : Bool)
  | bool (value : Bool)
  | i32 (value : Int32)
  | i64 (value : Int64)
  | mode (value : UInt32)
  | u32 (value : UInt32)
  | u64 (value : UInt64)
  | strId (value : UInt64)
  | time (value : Int64)
  | str (value : Option (List UInt8))
  | bin (value : Option (List UInt8))
  | pack (value : Option (List UInt8))
  | strLst (value : Option (List (Option (List UInt8))))
  deriving DecidableEq

def pckWriteCall (this : PackWrite) : PckWriteCall → Except Error PackWrite
  | .null => .ok (pckWriteNull this)
  | .bool value defaultWrite defaultValue => pckWriteBool this value 0 defaultWrite defaultValue
  | .i32 value defaultWrite defaultValue => pckWriteI32 this value 0 defaultWrite defaultValue
  | .i64 value defaultWrite defaultValue => pckWriteI64 this value 0 defaultWrite defaultValue
  | .mode value defaultWrite defaultValue => pckWriteMode this value 0 defaultWrite defaultValue
  | .u32 value defaultWrite defaultValue => pckWriteU32 this value 0 defaultWrite defaultValue
  | .u64 value defaultWrite defaultValue => pckWriteU64 this value 0 defaultWrite defaultValue
  | .strId value defaultWrite defaultValue => pckWriteStrId this value 0 defaultWrite defaultValue
  | .time value defaultWrite defaultValue => pckWriteTime this value 0 defaultWrite defaultValue
  | .str value defaultWrite defaultValue => pckWriteStr this value 0 defaultWrite defaultValue
  | .bin value => pckWriteBin this value 0
  | .pack value => pckWritePack this value 0
  | .strLst value => pckWriteStrLst this value 0
  | .arrayBegin => pckWriteArrayBegin this 0
  | .arrayEnd => pckWriteArrayEnd this
  | .objBegin => pckWriteObjBegin this 0
  | .objEnd => pckWriteObjEnd this

def pckValue {α : Type} (value : α → PckValue) (result : Except Error (α × PackRead)) :
    Except Error (PckValue × PackRead) := do
  let (a, this) ← result
  .ok (value a, this)

def pckReadCall (this : PackRead) : PckReadCall → Except Error (PckValue × PackRead)
  | .null => pckValue .null (pckReadNull this 0)
  | .bool defaultValue => pckValue .bool (pckReadBool this 0 defaultValue)
  | .i32 defaultValue => pckValue .i32 (pckReadI32 this 0 defaultValue)
  | .i64 defaultValue => pckValue .i64 (pckReadI64 this 0 defaultValue)
  | .mode defaultValue => pckValue .mode (pckReadMode this 0 defaultValue)
  | .u32 defaultValue => pckValue .u32 (pckReadU32 this 0 defaultValue)
  | .u64 defaultValue => pckValue .u64 (pckReadU64 this 0 defaultValue)
  | .strId defaultValue => pckValue .strId (pckReadStrId this 0 defaultValue)
  | .time defaultValue => pckValue .time (pckReadTime this 0 defaultValue)
  | .str defaultValue => pckValue .str (pckReadStr this 0 (defaultValue.map ByteStr.bytes))
  | .bin => pckValue .bin (pckReadBin this 0)
  | .pack => pckValue .pack (pckReadPack this 0)
  | .strLst => pckValue .strLst (pckReadStrLst this 0)
  | .arrayBegin => do .ok (.void, ← pckReadArrayBegin this 0)
  | .arrayEnd => do .ok (.void, ← pckReadArrayEnd this)
  | .objBegin => do .ok (.void, ← pckReadObjBegin this 0)
  | .objEnd => do .ok (.void, ← pckReadObjEnd this)

/-- Write all fields and end the pack. -/
def pckWriteCalls (this : PackWrite) : List PckWriteCall → Except Error PackWrite
  | [] => pckWriteEnd this
  | call :: calls => do
    let this ← pckWriteCall this call
    pckWriteCalls this calls

/-- Read all fields and the end of the pack. -/
def pckReadCalls (this : PackRead) : List PckReadCall → Except Error (List PckValue × PackRead)
  | [] => do .ok ([], ← pckReadEnd this)
  | call :: calls => do
    let (value, this) ← pckReadCall this call
    let (values, this) ← pckReadCalls this calls
    .ok (value :: values, this)

/-! ## Corresponding calls -/

/-- Does the call read a field, and not begin or end a container? -/
def PckReadCall.isField : PckReadCall → Bool
  | .arrayBegin | .arrayEnd | .objBegin | .objEnd => false
  | _ => true

/-- What a call returns for a field that is missing. -/
def PckReadCall.missing : PckReadCall → PckValue
  | .null => .null true
  | .bool defaultValue => .bool (decide (defaultValue ≠ 0))
  | .i32 defaultValue => .i32 defaultValue
  | .i64 defaultValue => .i64 defaultValue
  | .mode defaultValue => .mode defaultValue
  | .u32 defaultValue => .u32 defaultValue
  | .u64 defaultValue => .u64 defaultValue
  | .strId defaultValue => .strId defaultValue
  | .time defaultValue => .time defaultValue
  | .str defaultValue => .str (defaultValue.map ByteStr.bytes)
  | .bin => .bin none
  | .pack => .pack none
  | .strLst => .strLst none
  | .arrayBegin | .arrayEnd | .objBegin | .objEnd => .void

/-- **The read call of a write call**: the same type with the same default. A
`NULL` is read by any call for a field. -/
def Corresponds : PckWriteCall → PckReadCall → Prop
  | .null, call => call.isField = true
  | .bool _ _ defaultValue, call => call = .bool defaultValue
  | .i32 _ _ defaultValue, call => call = .i32 defaultValue
  | .i64 _ _ defaultValue, call => call = .i64 defaultValue
  | .mode _ _ defaultValue, call => call = .mode defaultValue
  | .u32 _ _ defaultValue, call => call = .u32 defaultValue
  | .u64 _ _ defaultValue, call => call = .u64 defaultValue
  | .strId _ _ defaultValue, call => call = .strId defaultValue
  | .time _ _ defaultValue, call => call = .time defaultValue
  | .str _ _ defaultValue, call => call = .str defaultValue
  | .bin _, call => call = .bin
  | .pack _, call => call = .pack
  | .strLst _, call => call = .strLst
  | .arrayBegin, call => call = .arrayBegin
  | .arrayEnd, call => call = .arrayEnd
  | .objBegin, call => call = .objBegin
  | .objEnd, call => call = .objEnd

/-- **The value that was written**, or the default of the read call for a
`NULL`. -/
def writtenValue : PckWriteCall → PckReadCall → PckValue
  | .null, call => call.missing
  | .bool value _ _, _ => .bool value
  | .i32 value _ _, _ => .i32 value
  | .i64 value _ _, _ => .i64 value
  | .mode value _ _, _ => .mode value
  | .u32 value _ _, _ => .u32 value
  | .u64 value _ _, _ => .u64 value
  | .strId value _ _, _ => .strId value
  | .time value _ _, _ => .time value
  | .str value _ _, _ => .str (value.map ByteStr.bytes)
  | .bin value, _ => .bin (value.map Buffer.bytes)
  | .pack value, _ => .pack (value.map Buffer.bytes)
  | .strLst value, _ => .strLst (value.map (fun list => list.strs.map (fun s => some s.bytes)))
  | .arrayBegin, _ => .void
  | .arrayEnd, _ => .void
  | .objBegin, _ => .void
  | .objEnd, _ => .void

/-! ## Sequences that are allowed -/

/-- Open containers: the type and the number of fields of each. -/
abbrev OpenContainers := (PackTypeMap × ℕ) × List (PackTypeMap × ℕ)

/-- The containers after a call, or `none` if the call is not allowed there: an
end that does not belong to the innermost container, a `NULL` string that must
be written, or too many fields. -/
def PckWriteCall.open? (containers : OpenContainers) : PckWriteCall → Option OpenContainers
  | .arrayEnd => endOf .array
  | .objEnd => endOf .obj
  | .arrayBegin => do
    let containers ← field
    return ((.array, 0), containers.1 :: containers.2)
  | .objBegin => do
    let containers ← field
    return ((.obj, 0), containers.1 :: containers.2)
  | .str none true _ => none
  | .str none false (some _) => none
  | _ => field
where
  /-- One more field. -/
  field : Option OpenContainers :=
    if containers.1.2 + 1 < UINT_MAX - 1 then
      some ((containers.1.1, containers.1.2 + 1), containers.2)
    else none
  /-- The innermost container ends. -/
  endOf (typeMap : PackTypeMap) : Option OpenContainers :=
    match containers.2 with
    | [] => none
    | container :: below => if containers.1.1 = typeMap then some (container, below) else none

/-- Every call is allowed and all containers are closed at the end. -/
def CallsAllowed (containers : OpenContainers) : List PckWriteCall → Prop
  | [] => containers.2 = []
  | call :: calls => ∃ after, call.open? containers = some after ∧ CallsAllowed after calls

end PgxBackup
