import PgxBackup.Convert
import PgxBackup.Variant

/-!
# Reading JSON

The reader of `common/type/json` as a state machine: the text that is left, the
open containers, and whether a key was read whose value is next. Reading a
variant and skipping a value recurse over the containers in the same way and
have string scanners of their own.

The text ends with a zero. A position behind it is not part of the text any
more, so a step that goes there has no result (`JsonStop.overrun`). The
assertions, which production builds leave out, are not checked.
-/

namespace PgxBackup

/-- `JsonType`. -/
inductive JsonType
  | bool
  | null
  | number
  | string
  | arrayBegin
  | arrayEnd
  | objectBegin
  | objectEnd
  deriving DecidableEq, Repr

/-- `jsonTypeScalar`. -/
def jsonTypeScalar : JsonType → Bool
  | .bool | .null | .number | .string => true
  | .arrayBegin | .arrayEnd | .objectBegin | .objectEnd => false

/-- The text of the string id of a type. -/
def jsonTypeZ : JsonType → Str
  | .bool => "bool".toList
  | .null => "null".toList
  | .number => "nmbr".toList
  | .string => "str".toList
  | .arrayBegin => "ary-b".toList
  | .arrayEnd => "ary-e".toList
  | .objectBegin => "obj-b".toList
  | .objectEnd => "obj-e".toList

/-- Why there is no result: an error was thrown, the position went behind the
terminating zero, or the bound on the turns was too small. -/
inductive JsonStop
  | throw (error : Error)
  | overrun
  | turns
  deriving DecidableEq

/-- Throw a `JsonFormatError`. -/
def jsonThrow {α : Type} (message : Str) : Except JsonStop α :=
  .error (.throw ⟨.jsonFormatError, message⟩)

/-- A conversion that throws its own error. -/
def cvt {α : Type} (result : Except Error α) : Except JsonStop α := result.mapError .throw

/-- An open container. -/
structure JsonReadStack where
  type : JsonType
  /-- First element has been read. -/
  first : Bool
  deriving DecidableEq

/-- JSON that is being read. -/
structure JsonRead where
  /-- The text that is left, up to the terminating zero. -/
  json : Str
  /-- The open containers, innermost first. -/
  stack : Option (List JsonReadStack)
  /-- Was a key read for an object value? -/
  key : Bool
  /-- JSON read is complete. -/
  complete : Bool
  deriving DecidableEq

/-- `jsonReadNew`. -/
def jsonReadNew (json : Str) : JsonRead :=
  ⟨json.takeWhile (fun c => decide (c ≠ '\x00')), none, false, false⟩

/-- Characters that are consumed as whitespace. -/
def jsonWhiteSpace (c : Char) : Bool := c = ' ' || c = '\t' || c = '\n' || c = '\r'

/-- `jsonReadConsumeWhiteSpace`. -/
def jsonReadConsumeWhiteSpace (this : JsonRead) : JsonRead :=
  { this with json := this.json.dropWhile jsonWhiteSpace }

/-- Move to the next character. -/
def JsonRead.next (this : JsonRead) : JsonRead := { this with json := this.json.tail }

/-- The type that a character begins. -/
def jsonTypeOf (c : Char) : Option JsonType :=
  if c = '"' then some .string
  else if c = '-' ∨ c.isDigit then some .number
  else if c = 't' ∨ c = 'f' then some .bool
  else if c = 'n' then some .null
  else if c = '[' then some .arrayBegin
  else if c = ']' then some .arrayEnd
  else if c = '\x7b' then some .objectBegin
  else if c = '\x7d' then some .objectEnd
  else none

/-- `jsonReadTypeNext`. -/
def jsonReadTypeNext (this : JsonRead) : Except JsonStop (JsonType × JsonRead) :=
  let this := jsonReadConsumeWhiteSpace this
  match this.json with
  | [] => jsonThrow "expected data".toList
  | c :: _ =>
    match jsonTypeOf c with
    | some type => .ok (type, this)
    | none => jsonThrow ("invalid type at: ".toList ++ this.json)

/-- `jsonReadTypeNextIgnoreComma`. A comma is only peeked past. -/
def jsonReadTypeNextIgnoreComma (this : JsonRead) : Except JsonStop (JsonType × JsonRead) :=
  let this := jsonReadConsumeWhiteSpace this
  if this.json.head? = some ',' then
    (jsonReadTypeNext this.next).map (fun result => (result.1, this))
  else jsonReadTypeNext this

/-- Check that a key has not been read since the last value, or that one has. -/
def jsonReadPushKey (this : JsonRead) (item : JsonReadStack) (key : Bool) :
    Except JsonStop JsonRead :=
  if key then
    if this.key then
      .error (.throw ⟨.assertError, "key has already been read at: ".toList ++ this.json⟩)
    else .ok { this with key := true }
  else if item.type = .objectBegin then
    if this.key then .ok { this with key := false }
    else .error (.throw ⟨.assertError, "key has not been read at: ".toList ++ this.json⟩)
  else .ok this

/-- Consume the comma before all but the first element. -/
def jsonReadPushComma (this : JsonRead) (item : JsonReadStack) (below : List JsonReadStack)
    (key : Bool) : Except JsonStop JsonRead :=
  if item.first && (decide (item.type ≠ .objectBegin) || key) then
    if this.json.head? ≠ some ',' then jsonThrow ("missing comma at: ".toList ++ this.json)
    else .ok (jsonReadConsumeWhiteSpace this.next)
  else .ok { this with stack := some ({ item with first := true } :: below) }

/-- Account for a key or a value in the innermost container. -/
def jsonReadPushItem (this : JsonRead) (key : Bool) : Except JsonStop JsonRead :=
  match this.stack.getD [] with
  | [] => .ok this
  | item :: below => do
    let this ← jsonReadPushKey this item key
    jsonReadPushComma this item below key

def JsonRead.addContainer (this : JsonRead) (type : JsonType) : JsonRead :=
  if jsonTypeScalar type then this
  else { this with stack := some (⟨type, false⟩ :: this.stack.getD []) }

/-- `jsonReadPush`. -/
def jsonReadPush (this : JsonRead) (type : JsonType) (key : Bool) : Except JsonStop JsonRead := do
  if this.complete then .error (.throw ⟨.formatError, "JSON read is complete".toList⟩)
  else
    let (typeActual, this) ← jsonReadTypeNextIgnoreComma this
    if typeActual ≠ type then
      jsonThrow ("expected '".toList ++ jsonTypeZ type ++ "' but found '".toList
        ++ jsonTypeZ typeActual ++ "' at: ".toList ++ this.json)
    else if this.stack = none ∧ jsonTypeScalar type then .ok { this with complete := true }
    else
      let this ← jsonReadPushItem this key
      .ok (this.addContainer type)

/-- `jsonReadPop`. -/
def jsonReadPop (this : JsonRead) (type : JsonType) : Except JsonStop JsonRead := do
  if this.complete then .error (.throw ⟨.formatError, "JSON read is complete".toList⟩)
  else
    let (typeActual, this) ← jsonReadTypeNext this
    if typeActual ≠ type then
      jsonThrow ("expected ".toList ++ (if type = .arrayEnd then [']'] else ['\x7d'])
        ++ " but found ".toList ++ this.json.take 1 ++ " at: ".toList ++ this.json)
    else
      let stack := (this.stack.getD []).tail
      .ok { this with stack := some stack, complete := stack.isEmpty }

/-- `JsonReadNumberResult`. -/
inductive JsonReadNumberResult
  | u64 (value : UInt64)
  | i64 (value : Int64)
  deriving DecidableEq

/-- The size of the buffer for a converted number. -/
def CVT_BASE10_BUFFER_SIZE : ℕ := 64

/-- `jsonReadNumber`. -/
def jsonReadNumber (this : JsonRead) : Except JsonStop (JsonReadNumberResult × JsonRead) := do
  let sign : Str := if this.json.head? = some '-' then ['-'] else []
  let digits := (this.json.drop sign.length).takeWhile Char.isDigit
  if digits = [] then jsonThrow ("no digits found at: ".toList ++ this.json)
  else if digits.length ≥ CVT_BASE10_BUFFER_SIZE then
    jsonThrow ("invalid number at: ".toList ++ this.json)
  else
    let this := { this with json := this.json.drop (sign.length + digits.length) }
    if sign ≠ [] then
      let value ← cvt (cvtZToInt64Base 10 (sign ++ digits))
      .ok (.i64 (Int64.ofInt value), this)
    else
      let value ← cvt (cvtZToUInt64Base 10 digits)
      .ok (.u64 (UInt64.ofNat value), this)

/-- `jsonReadArrayBegin`. -/
def jsonReadArrayBegin (this : JsonRead) : Except JsonStop JsonRead := do
  let this ← jsonReadPush this .arrayBegin false
  .ok this.next

/-- `jsonReadArrayEnd`. -/
def jsonReadArrayEnd (this : JsonRead) : Except JsonStop JsonRead := do
  let this ← jsonReadPop this .arrayEnd
  .ok this.next

/-- `jsonReadObjectBegin`. -/
def jsonReadObjectBegin (this : JsonRead) : Except JsonStop JsonRead := do
  let this ← jsonReadPush this .objectBegin false
  .ok this.next

/-- `jsonReadObjectEnd`. -/
def jsonReadObjectEnd (this : JsonRead) : Except JsonStop JsonRead := do
  let this ← jsonReadPop this .objectEnd
  .ok this.next

/-- `jsonReadBool`. -/
def jsonReadBool (this : JsonRead) : Except JsonStop (Bool × JsonRead) := do
  let this ← jsonReadPush this .bool false
  if "true".toList.isPrefixOf this.json then .ok (true, { this with json := this.json.drop 4 })
  else if "false".toList.isPrefixOf this.json then
    .ok (false, { this with json := this.json.drop 5 })
  else jsonThrow ("expected boolean at: ".toList ++ this.json)

/-- `jsonReadNull`. -/
def jsonReadNull (this : JsonRead) : Except JsonStop JsonRead := do
  let this ← jsonReadPush this .null false
  if "null".toList.isPrefixOf this.json then .ok { this with json := this.json.drop 4 }
  else jsonThrow ("expected null at: ".toList ++ this.json)

/-! ## Strings -/

/-- The characters of a key up to its closing quote, and what follows. -/
def jsonReadKeyLoop : Str → Except JsonStop (Str × Str)
  | [] => jsonThrow "expected '\"' but found null delimiter".toList
  | c :: json =>
    if c = '"' then .ok ([], json)
    else if c = '\\' then
      jsonThrow ("escape character not allowed in key at: ".toList ++ c :: json)
    else (jsonReadKeyLoop json).map (fun result => (c :: result.1, result.2))

/-- Consume the `:` after a key. -/
def jsonReadColon (this : JsonRead) (message : Str) : Except JsonStop JsonRead :=
  let this := jsonReadConsumeWhiteSpace this
  if this.json.head? ≠ some ':' then jsonThrow (message ++ " at: ".toList ++ this.json)
  else .ok this.next

/-- `jsonReadKeyZN`. -/
def jsonReadKeyZN (this : JsonRead) : Except JsonStop (Str × JsonRead) := do
  -- skip the beginning quote
  let (key, json) ← jsonReadKeyLoop this.next.json
  let this ← jsonReadColon { this with json := json }
    ("expected : after key '".toList ++ key ++ "'".toList)
  .ok (key, this)

/-- `jsonReadKey`. -/
def jsonReadKey (this : JsonRead) : Except JsonStop (Str × JsonRead) := do
  let this ← jsonReadPush this .string true
  jsonReadKeyZN this

/-- The value of a hexadecimal digit. -/
def hexDigit? (c : Char) : Option ℕ :=
  if c.isDigit then some (c.toNat - 48)
  else if 97 ≤ c.toNat ∧ c.toNat ≤ 102 then some (c.toNat - 87)
  else if 65 ≤ c.toNat ∧ c.toNat ≤ 70 then some (c.toNat - 55)
  else none

/-- `cvtZSubNToUIntBase` in base 16 of at most two characters, where a prefix
`0x` has no digits behind it. -/
def cvtZSubNToUIntBase16 (value : Str) : Except Error ℕ :=
  let n : Option ℕ :=
    match value with
    | ['+', a] => hexDigit? a
    | [a] => hexDigit? a
    | [a, b] => do .some (16 * (← hexDigit? a) + (← hexDigit? b))
    | _ => none
  match n with
  | some n => .ok n
  | none => .error (cvtError 16 value "unsigned int")

/-- The character of an escape other than `\u`. -/
def jsonEscape : Char → Option Char
  | '"' => some '"'
  | '\\' => some '\\'
  | '/' => some '/'
  | 'n' => some '\n'
  | 'r' => some '\r'
  | 't' => some '\t'
  | 'b' => some '\x08'
  | 'f' => some '\x0c'
  | _ => none

/-- The characters of a string up to its closing quote, and what follows. The
portion without escapes is copied when it ends. -/
def jsonReadStrLoop (result : StrBuf) (noEscape : Str) : Str → Except JsonStop (Str × Str)
  | [] => jsonThrow "expected '\"' but found null delimiter".toList
  | '"' :: json => do
    let result ← cvt (result.cat noEscape)
    .ok (result.str, json)
  | '\\' :: json => do
    let result ← cvt (result.cat noEscape)
    match json with
    | 'u' :: '0' :: '0' :: json =>
      -- decode the character
      let value ← cvt (cvtZSubNToUIntBase16 (json.take 2))
      match json with
      | _ :: _ :: json => do
        let result ← cvt (result.cat [Char.ofNat value])
        jsonReadStrLoop result [] json
      | _ => .error .overrun
    | 'u' :: json => jsonThrow ("unable to decode at: ".toList ++ '\\' :: 'u' :: json)
    | [] => jsonThrow "invalid escape character at: \\".toList
    | c :: json =>
      match jsonEscape c with
      | some c => do
        let result ← cvt (result.cat [c])
        jsonReadStrLoop result [] json
      | none => jsonThrow ("invalid escape character at: ".toList ++ '\\' :: c :: json)
  | c :: json => jsonReadStrLoop result (noEscape ++ [c]) json

/-- `jsonReadStr`, where `NULL` is none. -/
def jsonReadStr (this : JsonRead) : Except JsonStop (Option Str × JsonRead) := do
  let (type, this) ← jsonReadTypeNextIgnoreComma this
  if type = .null then
    let this ← jsonReadNull this
    .ok (none, this)
  else
    let this ← jsonReadPush this .string false
    -- skip the beginning quote
    let (result, json) ← jsonReadStrLoop .empty [] this.next.json
    .ok (some result, { this with json := json })

/-- The position behind the closing quote of a string that is skipped. After a
`\u` escape, which is four digits, one more character is passed. -/
def jsonReadSkipStrLoop : Str → Except JsonStop Str
  | [] => jsonThrow "expected '\"' but found null delimiter".toList
  | '"' :: json => .ok json
  | '\\' :: [] => .error .overrun
  | '\\' :: 'u' :: json =>
    match json with
    | a :: b :: c :: d :: json' =>
      if [a, b, c, d].all Char.isDigit then
        match json' with
        | [] => .error .overrun
        | _ :: json' => jsonReadSkipStrLoop json'
      else jsonThrow ("unable to decode at: ".toList ++ '\\' :: 'u' :: json)
    | json => jsonThrow ("unable to decode at: ".toList ++ '\\' :: 'u' :: json)
  | '\\' :: _ :: json => jsonReadSkipStrLoop json
  | _ :: json => jsonReadSkipStrLoop json

section SkipStr

variable {a b c d : Char}

theorem skipStrLoop_unicode (h : [a, b, c, d].all Char.isDigit = true) (e : Char) (json : Str) :
    jsonReadSkipStrLoop ('\\' :: 'u' :: a :: b :: c :: d :: e :: json) = jsonReadSkipStrLoop json :=
  if_pos h

theorem skipStrLoop_unicode_end (h : [a, b, c, d].all Char.isDigit = true) :
    jsonReadSkipStrLoop ['\\', 'u', a, b, c, d] = .error .overrun :=
  if_pos h

theorem skipStrLoop_escape (h : c ≠ 'u') (json : Str) :
    jsonReadSkipStrLoop ('\\' :: c :: json) = jsonReadSkipStrLoop json := by
  rw [jsonReadSkipStrLoop]
  exact h

theorem skipStrLoop_char (hquote : c ≠ '"') (hescape : c ≠ '\\') (json : Str) :
    jsonReadSkipStrLoop (c :: json) = jsonReadSkipStrLoop json := by
  rw [jsonReadSkipStrLoop]
  · exact hquote
  · exact fun h => absurd h hescape
  · exact fun _ h => absurd h hescape
  · exact fun _ _ h => absurd h hescape

/-- A `\u` escape that is not four digits. -/
theorem skipStrLoop_noDigits {json : Str}
    (h : ∀ a b c d json', json = a :: b :: c :: d :: json' → ¬ [a, b, c, d].all Char.isDigit = true) :
    jsonReadSkipStrLoop ('\\' :: 'u' :: json)
      = jsonThrow ("unable to decode at: ".toList ++ '\\' :: 'u' :: json) := by
  match json with
  | [] | [_] | [_, _] | [_, _, _] => rfl
  | [a, b, c, d] => exact if_neg (h a b c d [] rfl)
  | a :: b :: c :: d :: e :: json' => exact if_neg (h a b c d (e :: json') rfl)

end SkipStr

/-- `jsonReadSkipStr`. -/
def jsonReadSkipStr (this : JsonRead) : Except JsonStop JsonRead := do
  -- skip the beginning quote
  let json ← jsonReadSkipStrLoop this.next.json
  .ok { this with json := json }

end PgxBackup
