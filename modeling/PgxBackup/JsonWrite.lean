import PgxBackup.JsonRead

/-!
# Writing JSON

The writer of `common/type/json`: the text so far, the open containers with
the last key of each, and whether a key was written whose value is next. Keys
are written in ascending order, and as they are.
-/

namespace PgxBackup

/-- An open container. -/
structure JsonWriteStack where
  type : JsonType
  /-- First element has been written. -/
  first : Bool
  /-- Last key. -/
  keyLast : Str
  deriving DecidableEq

/-- The size of `keyLast` with its terminating zero. -/
def JSON_KEY_LAST_SIZE : ℕ := 67

/-- JSON that is being written. -/
structure JsonWrite where
  json : StrBuf
  /-- The open containers, innermost first. -/
  stack : Option (List JsonWriteStack)
  /-- Is a key set for an object value? -/
  key : Bool
  /-- JSON write is complete. -/
  complete : Bool

/-- `jsonWriteNew`. -/
def jsonWriteNew : JsonWrite := ⟨.empty, none, false, false⟩

/-- Append to the text. -/
def JsonWrite.cat (this : JsonWrite) (cat : Str) : Except Error JsonWrite := do
  .ok { this with json := ← this.json.cat cat }

/-- Check that a key is after the last one and store it, or that one has been
written for the value. -/
def jsonWritePushKey (this : JsonWrite) (item : JsonWriteStack) :
    Option Str → Except Error (JsonWrite × JsonWriteStack)
  | some key =>
    if this.key then .error ⟨.jsonFormatError, "key has already been written".toList⟩
    else if item.keyLast ≠ [] ∧ strCmp key item.keyLast ≤ 0 then
      .error ⟨.jsonFormatError, "key '".toList ++ key ++ "' is not after prior key '".toList
        ++ item.keyLast ++ "'".toList⟩
    else if key.length ≥ JSON_KEY_LAST_SIZE then
      .error ⟨.assertError, "key '".toList ++ key ++ "' must not be longer than 66 bytes".toList⟩
    else .ok ({ this with key := true }, { item with keyLast := key })
  | none =>
    if item.type = .objectBegin then
      if this.key then .ok ({ this with key := false }, item)
      else .error ⟨.jsonFormatError, "key has not been written".toList⟩
    else .ok (this, item)

/-- Account for a key or a value in the innermost container. -/
def jsonWritePushItem (this : JsonWrite) (key : Option Str) : Except Error JsonWrite :=
  match this.stack.getD [] with
  | [] => .ok this
  | item :: below => do
    let (this, item) ← jsonWritePushKey this item key
    -- write comma
    if item.first && (decide (item.type ≠ .objectBegin) || key.isSome) then
      JsonWrite.cat { this with stack := some (item :: below) } [',']
    else .ok { this with stack := some ({ item with first := true } :: below) }

/-- `jsonWritePush`. -/
def jsonWritePush (this : JsonWrite) (type : JsonType) (key : Option Str) :
    Except Error JsonWrite :=
  if this.complete then .error ⟨.jsonFormatError, "JSON write is complete".toList⟩
  else if this.stack = none ∧ jsonTypeScalar type then .ok { this with complete := true }
  else do
    let this ← jsonWritePushItem this key
    if jsonTypeScalar type then .ok this
    else .ok { this with stack := some (⟨type, false, []⟩ :: this.stack.getD []) }

/-- `jsonWritePop`. -/
def jsonWritePop (this : JsonWrite) : JsonWrite :=
  let stack := (this.stack.getD []).tail
  { this with stack := some stack, complete := stack.isEmpty }

/-- `jsonWriteArrayBegin`. -/
def jsonWriteArrayBegin (this : JsonWrite) : Except Error JsonWrite := do
  (← jsonWritePush this .arrayBegin none).cat ['[']

/-- `jsonWriteArrayEnd`. -/
def jsonWriteArrayEnd (this : JsonWrite) : Except Error JsonWrite := (jsonWritePop this).cat [']']

/-- `jsonWriteObjectBegin`. -/
def jsonWriteObjectBegin (this : JsonWrite) : Except Error JsonWrite := do
  (← jsonWritePush this .objectBegin none).cat ['\x7b']

/-- `jsonWriteObjectEnd`. -/
def jsonWriteObjectEnd (this : JsonWrite) : Except Error JsonWrite := (jsonWritePop this).cat ['\x7d']

/-- Write a scalar whose text is made before. -/
def jsonWriteScalar (this : JsonWrite) (type : JsonType) (text : Str) : Except Error JsonWrite := do
  (← jsonWritePush this type none).cat text

/-- `jsonWriteBool`. -/
def jsonWriteBool (this : JsonWrite) (value : Bool) : Except Error JsonWrite :=
  jsonWriteScalar this .bool (if value then "true".toList else "false".toList)

/-- `jsonWriteNull`. -/
def jsonWriteNull (this : JsonWrite) : Except Error JsonWrite :=
  jsonWriteScalar this .null "null".toList

/-- A number in base 10. -/
def cvtToZ (value : ℤ) : Str :=
  if value < 0 then '-' :: Nat.toDigits 10 value.natAbs else Nat.toDigits 10 value.natAbs

/-- `jsonWriteInt`. -/
def jsonWriteInt (this : JsonWrite) (value : Int32) : Except Error JsonWrite :=
  jsonWriteScalar this .number (cvtToZ value.toInt)

/-- `jsonWriteInt64`. -/
def jsonWriteInt64 (this : JsonWrite) (value : Int64) : Except Error JsonWrite :=
  jsonWriteScalar this .number (cvtToZ value.toInt)

/-- `jsonWriteUInt`. -/
def jsonWriteUInt (this : JsonWrite) (value : UInt32) : Except Error JsonWrite :=
  jsonWriteScalar this .number (cvtToZ value.toNat)

/-- `jsonWriteUInt64`. -/
def jsonWriteUInt64 (this : JsonWrite) (value : UInt64) : Except Error JsonWrite :=
  jsonWriteScalar this .number (cvtToZ value.toNat)

/-- `jsonWriteKey`. -/
def jsonWriteKey (this : JsonWrite) (key : Str) : Except Error JsonWrite := do
  let this ← jsonWritePush this .string (some key)
  let this ← this.cat ['"']
  let this ← this.cat key
  this.cat ['"', ':']

def jsonWriteEscape : Char → Option Str
  | '"' => some ['\\', '"']
  | '\\' => some ['\\', '\\']
  | '\n' => some ['\\', 'n']
  | '\r' => some ['\\', 'r']
  | '\t' => some ['\\', 't']
  | '\x08' => some ['\\', 'b']
  | '\x0c' => some ['\\', 'f']
  | _ => none

/-- The characters of a string. The portion without escapes is copied when it ends. -/
def jsonWriteStrLoop (this : JsonWrite) (noEscape : Str) : Str → Except Error JsonWrite
  | [] => this.cat noEscape
  | c :: value =>
    match jsonWriteEscape c with
    | some escape => do
      let this ← this.cat noEscape
      let this ← this.cat escape
      jsonWriteStrLoop this [] value
    | none => jsonWriteStrLoop this (noEscape ++ [c]) value

/-- `jsonWriteStr` of a string that is not `NULL`. -/
def jsonWriteStr (this : JsonWrite) (value : Str) : Except Error JsonWrite := do
  let this ← jsonWritePush this .string none
  let this ← this.cat ['"']
  let this ← jsonWriteStrLoop this [] value
  this.cat ['"']

/-- Write the keys of an object, each with what writes its value. -/
def jsonWriteKeys (values : List (Str × (JsonWrite → Except Error JsonWrite))) :
    List Str → JsonWrite → Except Error JsonWrite
  | [], this => .ok this
  | key :: keyList, this => do
    let this ← jsonWriteKey this key
    let this ← (kvGet values key).getD jsonWriteNull this
    jsonWriteKeys values keyList this

mutual

/-- `jsonWriteVarRecurse`. -/
def jsonWriteVarRecurse : Variant → JsonWrite → Except Error JsonWrite
  | .null, this => jsonWriteNull this
  | .bool value, this => jsonWriteBool this value
  | .int value, this => jsonWriteInt this value
  | .int64 value, this => jsonWriteInt64 this value
  | .uint value, this => jsonWriteUInt this value
  | .uint64 value, this => jsonWriteUInt64 this value
  | .str value, this => jsonWriteStr this value
  | .varLst list, this => do
    let this ← jsonWriteArrayBegin this
    let this ← jsonWriteVarLst list this
    jsonWriteArrayEnd this
  | .kv pairs, this => do
    let keyList := strLstSort (kvKeyList pairs) .asc
    let this ← jsonWriteObjectBegin this
    let this ← jsonWriteKeys (jsonWriteValues pairs) keyList this
    jsonWriteObjectEnd this

def jsonWriteVarLst : List Variant → JsonWrite → Except Error JsonWrite
  | [], this => .ok this
  | value :: list, this => do
    let this ← jsonWriteVarRecurse value this
    jsonWriteVarLst list this

/-- What writes the values of a key/value. -/
def jsonWriteValues :
    List (Str × Variant) → List (Str × (JsonWrite → Except Error JsonWrite))
  | [] => []
  | (key, value) :: pairs => (key, jsonWriteVarRecurse value) :: jsonWriteValues pairs

end

/-- `jsonFromVar`. -/
def jsonFromVar (value : Variant) : Except Error Str := do
  let this ← jsonWriteVarRecurse value jsonWriteNew
  .ok this.json.str

end PgxBackup
