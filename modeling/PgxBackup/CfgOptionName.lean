import PgxBackup.BinarySearch
import PgxBackup.Text

/-!
# Names of options

`cfgParseOption` finds the option that a name from the command line, the
environment or the configuration file stands for. The name is copied to a
buffer of 65 bytes and edited there: a prefix `no-` or `reset-` is removed,
and so are the digits in front of the first dash, which are the key of an
indexed option. What is left is looked up among the names of the options and
then among the deprecated names.

The edits move bytes inside of the buffer with `memmove`. What a move outside
of the buffer does is not defined, so the result of the function is an error,
`none` for undefined behavior, or the option.
-/

namespace PgxBackup

/-! ## Tables -/

/-- The fields of `ParseRuleOption` that names depend on. -/
structure ParseRuleOptionName where
  name : Str
  beta : Bool
  /-- Can the option be negated on the command line? -/
  negate : Bool
  /-- Can the option be reset on the command line? -/
  reset : Bool
  /-- Can be specified multiple times? -/
  multi : Bool
  /-- The id of the group if in a group. -/
  group : Option ℕ
  /-- Does a deprecated name exactly match the option name? -/
  deprecateMatch : Bool
  deriving DecidableEq

/-- `ParseRuleOptionDeprecate`. -/
structure ParseRuleOptionDeprecate where
  name : Str
  id : ℕ
  /-- Can the deprecation be indexed? -/
  indexed : Bool
  /-- Can the deprecation be unindexed? -/
  unindexed : Bool
  deriving DecidableEq

/-- **The tables** `parseRuleOption`, `parseRuleOptionDeprecate` and
`parseRuleOptionGroup`: sorted by name, with ids that exist. -/
structure ParseRuleNames where
  option : List ParseRuleOptionName
  deprecation : List ParseRuleOptionDeprecate
  /-- The names of the groups. -/
  group : List Str
  option_sorted : option.Pairwise (fun a b => a.name < b.name)
  deprecation_sorted : deprecation.Pairwise (fun a b => a.name < b.name)
  deprecation_id : ∀ d ∈ deprecation, d.id < option.length
  option_group : ∀ o ∈ option, ∀ groupId ∈ o.group, groupId < group.length

/-- `CfgParseOptionResult`. -/
structure CfgParseOptionResult where
  found : Bool
  id : ℕ
  keyIdx : ℕ
  negate : Bool
  reset : Bool
  deprecated : Bool
  beta : Bool
  multi : Bool
  deriving DecidableEq

def cfgParseOptionNotFound : CfgParseOptionResult :=
  ⟨false, 0, 0, false, false, false, false, false⟩

/-! ## The buffer -/

def OPTION_PREFIX_NEGATE : Str := "no-".toList

def OPTION_PREFIX_RESET : Str := "reset-".toList

def OPTION_NAME_SIZE_MAX : ℕ := 64

/-- `optionName` and `optionNameSize`. -/
structure OptionName where
  buffer : List Char
  size : ℕ
  deriving DecidableEq

/-- The characters up to the terminating zero. -/
def cString (buffer : List Char) : Str := buffer.takeWhile (fun c => c ≠ '\x00')

/-- `memmove` inside of a buffer. -/
def memmove (buffer : List Char) (dst src size : ℕ) : Option (List Char) :=
  if src + size ≤ buffer.length ∧ dst + size ≤ buffer.length then
    some (buffer.take dst ++ (buffer.drop src).take size ++ buffer.drop (dst + size))
  else none

/-- Copy the option to a buffer: `strncpy` stops at a zero and fills the rest
with zeros. -/
def optionNameCopy (optionCandidate : Str) : OptionName :=
  ⟨cString optionCandidate
      ++ List.replicate (OPTION_NAME_SIZE_MAX + 1 - (cString optionCandidate).length) '\x00',
    optionCandidate.length⟩

/-- A removal of the bytes from one position of the name up to another one. -/
structure NameEdit where
  dst : ℕ
  src : ℕ
  deriving DecidableEq

/-- Remove the bytes: what follows is moved, with the size that is left and
one byte more for the zero. -/
def OptionName.edit (name : OptionName) (edit : NameEdit) : Option OptionName :=
  let size := name.size - (edit.src - edit.dst)
  (memmove name.buffer edit.dst edit.src (size + 1)).map (fun buffer => ⟨buffer, size⟩)

def OptionName.prefixSize (name : OptionName) : ℕ :=
  if name.buffer.take OPTION_PREFIX_NEGATE.length = OPTION_PREFIX_NEGATE then
    OPTION_PREFIX_NEGATE.length
  else if name.buffer.take OPTION_PREFIX_RESET.length = OPTION_PREFIX_RESET then
    OPTION_PREFIX_RESET.length
  else 0

/-- The removal of the prefix, if there is one. -/
def OptionName.prefixEdit (name : OptionName) : Option NameEdit :=
  if name.prefixSize = 0 then none else some ⟨0, name.prefixSize⟩

/-- The first dash (`strchr`). -/
def OptionName.dash (name : OptionName) : Option ℕ := (cString name.buffer).findIdx? (· = '-')

/-- Tally the key: go back over the digits in front of a position. -/
def keyTally (buffer : List Char) : ℕ → UInt32 → UInt32 → ℕ × UInt32
  | 0, keyIdx, _ => (0, keyIdx)
  | number + 1, keyIdx, multiplier =>
    match buffer[number]? with
    | some c =>
      if c.isDigit then
        keyTally buffer number (keyIdx + UInt32.ofNat (c.toNat - 48) * multiplier) (multiplier * 10)
      else (number + 1, keyIdx)
    | none => (number + 1, keyIdx)

/-- Where the key begins that ends at the first dash, and its tally. -/
def OptionName.key (name : OptionName) (dash : ℕ) : ℕ × UInt32 := keyTally name.buffer dash 0 1

/-- The removal of the key, if there is one and the name does not begin with
it. -/
def OptionName.keyEdit (name : OptionName) : Option NameEdit :=
  name.dash.bind (fun dash =>
    if (name.key dash).1 = 0 ∨ (name.key dash).1 = dash then none
    else some ⟨(name.key dash).1, dash⟩)

/-- Make an edit if there is one to make. -/
def OptionName.edited (name : OptionName) : Option NameEdit → Option OptionName
  | none => some name
  | some edit => name.edit edit

/-! ## The key -/

/-- An error, or `none` for undefined behavior. -/
abbrev Fault := Option Error

/-- `OptionInvalidError`. -/
def optionInvalid (parts : List Str) : Fault := some ⟨.optionInvalidError, parts.flatten⟩

def defined {α : Type} : Option α → Except Fault α
  | some a => .ok a
  | none => .error none

/-- `CFG_OPTION_KEY_MAX`, in the arithmetic of the key. -/
def optionKeyMax : UInt32 := 256

/-- Strip the key. The result is the name without it and the key index, if the
option is indexed. -/
def cfgParseOptionKey (optionCandidate : Str) (name : OptionName) :
    Except Fault (OptionName × Option ℕ) :=
  match name.dash with
  | none => .ok (name, none)
  | some dash =>
    if dash = 0 then
      .error (optionInvalid ["option '".toList, optionCandidate,
        "' cannot begin with a dash".toList])
    else if (name.key dash).1 = 0 then
      .error (optionInvalid ["option '".toList, optionCandidate,
        "' cannot begin with a number".toList])
    else if (name.key dash).1 = dash then .ok (name, none)
    else do
      let stripped ← defined (name.edit ⟨(name.key dash).1, dash⟩)
      if (name.key dash).2 < 1 ∨ optionKeyMax < (name.key dash).2 then
        .error (optionInvalid ["option '".toList, optionCandidate,
          "' key must be between 1 and 256".toList])
      else .ok (stripped, some ((name.key dash).2 - 1).toNat)

/-! ## The lookup -/

/-- Search for a single partial match: `strncmp` with the size of the name. -/
def partialFind (names : List Str) (name : OptionName) : Option ℕ :=
  match (List.range names.length).filter (fun idx =>
    ((names.getD idx []) ++ ['\x00']).take name.size = (cString name.buffer ++ ['\x00']).take name.size) with
  | [idx] => some idx
  | _ => none

namespace ParseRuleNames

variable (rules : ParseRuleNames)

def optionFind (prefixMatch : Bool) (name : OptionName) : Option ℕ :=
  (BinarySearch.bsearch (fun option => strCmp (cString name.buffer) option.name) rules.option).or
    (if prefixMatch then partialFind (rules.option.map ParseRuleOptionName.name) name else none)

/-- Search the deprecations. -/
def deprecateFind (prefixMatch : Bool) (name : OptionName) : Option ℕ :=
  (BinarySearch.bsearch (fun d => strCmp (cString name.buffer) d.name) rules.deprecation).or
    (if prefixMatch then partialFind (rules.deprecation.map ParseRuleOptionDeprecate.name) name
      else none)

/-- The name of the group of an option, as an error names it. -/
def groupName (option : ParseRuleOptionName) : Str := rules.group.getD (option.group.getD 0) []

/-- The error of a deprecated name without index. It shows the text before and
after the first dash; without a dash there is no text to show. -/
def deprecateIndexError (optionCandidate : Str) (name : OptionName)
    (option : ParseRuleOptionName) : Fault :=
  name.dash.bind (fun dash => optionInvalid ["deprecated option '".toList, optionCandidate,
    "' requires an index\nHINT: add the required index, e.g. ".toList,
    (cString name.buffer).take dash, ['1'], (cString name.buffer).drop dash,
    ".\nHINT: consider using the non-deprecated name, e.g. ".toList,
    rules.groupName option, ['1'], option.name.drop (rules.groupName option).length, ['.']])

/-- The option that a name without prefix and key stands for, and whether the
name is deprecated. -/
def cfgParseOptionFind (prefixMatch ignoreMissingIndex : Bool) (optionCandidate : Str)
    (name : OptionName) (indexed : Bool) : Except Fault (Option (ℕ × Bool)) :=
  match rules.optionFind prefixMatch name with
  | some id => .ok (some (id, false))
  | none =>
    match (rules.deprecateFind prefixMatch name).bind (rules.deprecation[·]?) with
    | none => .ok none
    | some d =>
      if indexed ∧ ¬ d.indexed then
        .error (optionInvalid ["deprecated option '".toList, optionCandidate,
          "' cannot have an index".toList])
      else
        match rules.option[d.id]? with
        | none => .error none
        | some option =>
          if ¬ indexed ∧ ¬ d.unindexed ∧ ¬ ignoreMissingIndex then
            .error (rules.deprecateIndexError optionCandidate name option)
          else .ok (some (d.id, true))

/-- What the rule of the option that was found has to say. -/
def cfgParseOptionCheck (ignoreMissingIndex : Bool) (optionCandidate : Str)
    (option : ParseRuleOptionName) (result : CfgParseOptionResult) (indexed : Bool) :
    Except Fault CfgParseOptionResult :=
  if result.negate ∧ ¬ option.negate then
    .error (optionInvalid ["option '".toList, optionCandidate, "' cannot be negated".toList])
  else if result.reset ∧ ¬ option.reset then
    .error (optionInvalid ["option '".toList, optionCandidate, "' cannot be reset".toList])
  else
    -- an unindexed deprecation may have the name of an indexed option
    let deprecated := result.deprecated || (!indexed && option.deprecateMatch)
    if ¬ deprecated ∧ indexed ∧ option.group = none then
      .error (optionInvalid ["option '".toList, optionCandidate, "' cannot have an index".toList])
    else if ¬ deprecated ∧ ¬ indexed ∧ option.group ≠ none ∧ ¬ ignoreMissingIndex then
      .error (optionInvalid ["option '".toList, optionCandidate,
        "' requires an index\nHINT: add the required index, e.g. ".toList,
        rules.groupName option, ['1'], option.name.drop (rules.groupName option).length, ['.']])
    else
      .ok { result with deprecated := deprecated, beta := option.beta, multi := option.multi }

/-- **Find an option by name** (`cfgParseOption`). -/
def cfgParseOption (prefixMatch ignoreMissingIndex : Bool) (optionCandidate : Str) :
    Except Fault CfgParseOptionResult := do
  if OPTION_NAME_SIZE_MAX < optionCandidate.length then
    .error (optionInvalid ["option '".toList, optionCandidate,
      "' exceeds maximum size of 64".toList])
  let copy := optionNameCopy optionCandidate
  let name ← defined (copy.edited copy.prefixEdit)
  let (name, keyIdx) ← cfgParseOptionKey optionCandidate name
  match ← rules.cfgParseOptionFind prefixMatch ignoreMissingIndex optionCandidate name
      keyIdx.isSome with
  | none => .ok cfgParseOptionNotFound
  | some (id, deprecated) =>
    match rules.option[id]? with
    | none => .error none
    | some option =>
      rules.cfgParseOptionCheck ignoreMissingIndex optionCandidate option
        { found := true
          id := id
          keyIdx := keyIdx.getD 0
          negate := copy.prefixSize = OPTION_PREFIX_NEGATE.length
          reset := copy.prefixSize = OPTION_PREFIX_RESET.length
          deprecated := deprecated
          beta := false
          multi := false }
        keyIdx.isSome

/-- The name of an option and key (`cfgParseOptionKeyIdxName`). -/
def cfgParseOptionKeyIdxName (option : ParseRuleOptionName) (keyIdx : ℕ) : Str :=
  match option.group with
  | none => option.name
  | some groupId =>
    rules.group.getD groupId [] ++ Nat.toDigits 10 (keyIdx + 1)
      ++ option.name.drop (rules.group.getD groupId []).length

end ParseRuleNames

end PgxBackup
