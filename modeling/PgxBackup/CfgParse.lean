import Mathlib.Data.List.FinRange
import Mathlib.Logic.Function.Basic
import PgxBackup.Compact
import PgxBackup.Text

/-!
# Option groups of the configuration

Options of a group, e.g. `pg1-path` and `pg2-path`, have a key. The values
that were found on the command line, in the environment and in the
configuration file are stored by key; `cfgParse` maps the keys that are in use
to indexes without gaps (phase 4), finds the value of every option at every
index (phase 5) and deletes the indexes where all options of the group have
their default (phase 6).

The option rules are generated: which options there are, which are valid for
the command, on what they depend and what their defaults are. They are a
parameter, and so are the checks of a single value.
-/

namespace PgxBackup

/-- The largest key (`CFG_OPTION_KEY_MAX`). -/
def CFG_OPTION_KEY_MAX : ℕ := 256

/-- The option groups (`ConfigOptionGroup`). -/
inductive ConfigOptionGroup
  | pg
  | repo
  deriving DecidableEq, Repr

/-- Where a value is from (`ConfigSource`). -/
inductive ConfigSource
  | default
  | param
  | config
  deriving DecidableEq, Repr

/-- A value that was found (`ParseOptionValue`). -/
structure ParseOptionValue where
  found : Bool
  negate : Bool
  reset : Bool
  source : ConfigSource
  valueList : List Str
  deriving DecidableEq, Repr

/-- The value of a key that was not found. -/
def parseOptionValueNone : ParseOptionValue := ⟨false, false, false, .default, []⟩

/-- The values of an option by key (`ParseOption`). A larger key is an error. -/
structure ParseOption where
  indexList : List ParseOptionValue
  total_le : indexList.length ≤ CFG_OPTION_KEY_MAX

/-- A value of the configuration (`ConfigOptionValue`). -/
structure ConfigOptionValue (V : Type) where
  set : Bool
  negate : Bool
  reset : Bool
  source : ConfigSource
  value : Option V
  deriving DecidableEq, Repr

/-- An option of the configuration (`ConfigOptionData`). -/
structure ConfigOptionData (V : Type) where
  valid : Bool
  /-- The group and its id, for a valid option. -/
  group : Option ConfigOptionGroup
  index : List (ConfigOptionValue V)

/-- A group of the configuration (`ConfigOptionGroupData`). -/
structure ConfigOptionGroupData where
  valid : Bool
  indexTotal : ℕ
  indexMap : List ℕ

/-- The configuration (`Config`), for options with the ids below `n`. -/
structure Config (n : ℕ) (V : Type) where
  help : Bool
  option : Fin n → ConfigOptionData V
  optionGroup : ConfigOptionGroup → ConfigOptionGroupData

/-- Is the dependency of an option resolved, and the default if it is not
(`CfgParseOptionalFilterDependResult`). -/
structure CfgDependResult (V : Type) where
  valid : Bool
  defaultValue : Option V

/-- The rule of an option (`ParseRuleOption`). -/
structure ParseRuleOption where
  /-- Is the type boolean? -/
  boolean : Bool
  group : Option ConfigOptionGroup

/-- **The rules**: what is generated, for a command, and the checks of a value. -/
structure ParseRules (n : ℕ) (V : Type) where
  option : Fin n → ParseRuleOption
  /-- The order in which options are resolved. -/
  resolveOrder : List (Fin n)
  resolveOrder_nodup : resolveOrder.Nodup
  mem_resolveOrder : ∀ optionId, optionId ∈ resolveOrder
  /-- Is the option valid for the command? -/
  valid : Fin n → Bool
  /-- Is the dependency of the option resolved at an index? -/
  depend : Config n V → Fin n → ℕ → CfgDependResult V
  /-- Check a value and convert it. -/
  value : Config n V → Fin n → ℕ → ParseOptionValue → Except Error V
  defaultValue : Config n V → Fin n → ℕ → Option V
  required : Config n V → Fin n → ℕ → Bool
  /-- The option is not valid for the command. -/
  invalidError : Fin n → Error
  /-- The option is not valid without another one. -/
  dependError : Config n V → Fin n → ℕ → Error
  /-- The command requires the option. -/
  requiredError : Fin n → ℕ → Error

section Parse

variable {n : ℕ} {V : Type} (rules : ParseRules n V)

/-! ## Phase 4: resolve indexed options for each group -/

/-- The configuration before phase 4. -/
def configNew (help : Bool) : Config n V where
  help := help
  option := fun _ => ⟨false, none, []⟩
  optionGroup := fun _ => ⟨false, 0, []⟩

def Config.setGroup (config : Config n V) (groupId : ConfigOptionGroup)
    (group : ConfigOptionGroupData) : Config n V :=
  { config with optionGroup := Function.update config.optionGroup groupId group }

def Config.setOption (config : Config n V) (optionId : Fin n) (option : ConfigOptionData V) :
    Config n V :=
  { config with option := Function.update config.option optionId option }

section

variable (config : Config n V)

@[simp] theorem Config.setOption_self (optionId : Fin n) (option : ConfigOptionData V) :
    (config.setOption optionId option).option optionId = option :=
  Function.update_self _ _ _

theorem Config.setOption_of_ne {id optionId : Fin n} (h : id ≠ optionId)
    (option : ConfigOptionData V) :
    (config.setOption optionId option).option id = config.option id :=
  Function.update_of_ne h _ _

@[simp] theorem Config.setGroup_self (groupId : ConfigOptionGroup) (group : ConfigOptionGroupData) :
    (config.setGroup groupId group).optionGroup groupId = group :=
  Function.update_self _ _ _

theorem Config.setGroup_of_ne {id groupId : ConfigOptionGroup} (h : id ≠ groupId)
    (group : ConfigOptionGroupData) :
    (config.setGroup groupId group).optionGroup id = config.optionGroup id :=
  Function.update_of_ne h _ _

end

def ParseOptionValue.used (value : ParseOptionValue) : Bool := value.found && !value.reset

/-- Scan the values of an option to find which keys are in use. The state is the
total and the map of the group. -/
def cfgParseKeyScan : ℕ → List ParseOptionValue → ℕ × (ℕ → Bool) → ℕ × (ℕ → Bool)
  | _, [], state => state
  | optionKeyIdx, value :: valueList, (indexTotal, groupIdxMap) =>
    cfgParseKeyScan (optionKeyIdx + 1) valueList
      (if value.used && !groupIdxMap optionKeyIdx then
        (indexTotal + 1, Function.update groupIdxMap optionKeyIdx true)
      else (indexTotal, groupIdxMap))

/-- The configuration and the keys that are in use in each group. -/
structure CfgGroupScan (n : ℕ) (V : Type) where
  config : Config n V
  groupIdxMap : ConfigOptionGroup → ℕ → Bool

/-- An option is valid or not, and the keys of its group. -/
def cfgParseOptionScan (parseOptionList : Fin n → ParseOption) (scan : CfgGroupScan n V)
    (optionId : Fin n) : Except Error (CfgGroupScan n V) :=
  if rules.valid optionId then
    let ruleOption := rules.option optionId
    let config := scan.config.setOption optionId ⟨true, ruleOption.group, []⟩
    match ruleOption.group with
    | none => .ok { scan with config := config }
    | some groupId =>
      let (indexTotal, groupIdxMap) := cfgParseKeyScan 0 (parseOptionList optionId).indexList
        ((config.optionGroup groupId).indexTotal, scan.groupIdxMap groupId)
      .ok
        { config := config.setGroup groupId
            { config.optionGroup groupId with valid := true, indexTotal := indexTotal }
          groupIdxMap := Function.update scan.groupIdxMap groupId groupIdxMap }
  else if (parseOptionList optionId).indexList ≠ [] then .error (rules.invalidError optionId)
  else .ok scan

/-- How the index map of a group is written: how many entries are allocated, the
number of indexes, and the positions that are written with their values. -/
structure CfgIndexMap where
  allocated : ℕ
  indexTotal : ℕ
  writes : List (ℕ × ℕ)
  deriving DecidableEq, Repr

/-- Write the keys into the index map in order. -/
def cfgParseIndexMap (groupId : ConfigOptionGroup) (optionIdxTotal : ℕ) (groupIdxMap : ℕ → Bool) :
    CfgIndexMap :=
  if optionIdxTotal = 0 then
    -- all valid groups must have at least one index
    ⟨1, 1, [(0, 0)]⟩
  else
    -- for the pg group, key 1 is required
    let start := if groupId = .pg then 1 else 0
    let optionKeyIdxList :=
      (List.range' start (CFG_OPTION_KEY_MAX - start)).filter (fun optionKeyIdx => groupIdxMap optionKeyIdx)
    ⟨optionIdxTotal, optionIdxTotal,
      (if groupId = .pg then [(0, 0)] else []) ++
        (optionKeyIdxList.zipIdx start).map (fun (optionKeyIdx, optionIdx) => (optionIdx, optionKeyIdx))⟩

def CfgIndexMap.indexMap (map : CfgIndexMap) : List ℕ :=
  map.writes.foldl (fun memory write => memory.set write.1 write.2) (List.replicate map.allocated 0)

def cfgParseGroupMap (scan : CfgGroupScan n V) (groupId : ConfigOptionGroup) : CfgIndexMap :=
  cfgParseIndexMap groupId (scan.config.optionGroup groupId).indexTotal (scan.groupIdxMap groupId)

/-- Write the indexes into each valid group. -/
def cfgParseGroupMaps (scan : CfgGroupScan n V) : Config n V :=
  { scan.config with
    optionGroup := fun groupId =>
      let group := scan.config.optionGroup groupId
      if group.valid then
        let map := cfgParseGroupMap scan groupId
        { group with indexTotal := map.indexTotal, indexMap := map.indexMap }
      else group }

/-! ## Phase 5: load values into the configuration -/

/-- The configuration and the indexes with a value that is not the default. -/
structure CfgResolve (n : ℕ) (V : Type) where
  config : Config n V
  optionGroupIndexKeep : ConfigOptionGroup → ℕ → Bool

def cfgParseOptionValue (config : Config n V) (optionId : Fin n) (optionListIdx optionKeyIdx : ℕ)
    (parsed : ParseOptionValue) : Except Error (ConfigOptionValue V) := do
  let optionSet :=
    parsed.found && ((rules.option optionId).boolean || !parsed.negate) && !parsed.reset
  let value : ConfigOptionValue V := ⟨false, parsed.negate, parsed.reset, .default, none⟩
  let dependResult := rules.depend config optionId optionListIdx
  if !dependResult.valid && optionSet && parsed.source = .param then
    .error (rules.dependError config optionId optionListIdx)
  else if dependResult.valid then do
    let value ←
      if optionSet then do
        let optionValue ← rules.value config optionId optionListIdx parsed
        .ok { value with set := true, source := parsed.source, value := some optionValue }
      else if parsed.negate then .ok { value with source := parsed.source }
      else .ok value
    if (!value.set && !parsed.negate) || config.help then
      match rules.defaultValue config optionId optionListIdx with
      | some defaultValue =>
        if !value.set then .ok { value with set := true, value := some defaultValue } else .ok value
      | none =>
        if !config.help && rules.required config optionId optionListIdx then
          .error (rules.requiredError optionId optionKeyIdx)
        else .ok value
    else .ok value
  else
    match dependResult.defaultValue with
    | some defaultValue => .ok ⟨true, false, false, .default, some defaultValue⟩
    | none => .ok value

/-- The key of an index: that of the group, or 0 for an option without a group. -/
def cfgParseKeyIdx (config : Config n V) (group : Option ConfigOptionGroup) (optionListIdx : ℕ) : ℕ :=
  match group with
  | some groupId => (config.optionGroup groupId).indexMap.getD optionListIdx 0
  | none => 0

def cfgParseOptionIndex (parseOptionList : Fin n → ParseOption) (optionId : Fin n)
    (resolve : CfgResolve n V) (optionListIdx : ℕ) : Except Error (CfgResolve n V) := do
  let config := resolve.config
  let group := (rules.option optionId).group
  let optionKeyIdx := cfgParseKeyIdx config group optionListIdx
  let parsed := (parseOptionList optionId).indexList.getD optionKeyIdx parseOptionValueNone
  let value ← cfgParseOptionValue rules config optionId optionListIdx optionKeyIdx parsed
  let option := config.option optionId
  .ok
    { config := config.setOption optionId { option with index := option.index.set optionListIdx value }
      optionGroupIndexKeep :=
        match group with
        | some groupId =>
          -- if a non-default group option, keep the group index
          if (rules.depend config optionId optionListIdx).valid && value.source ≠ .default then
            Function.update resolve.optionGroupIndexKeep groupId
              (Function.update (resolve.optionGroupIndexKeep groupId) optionListIdx true)
          else resolve.optionGroupIndexKeep
        | none => resolve.optionGroupIndexKeep }

def cfgParseIndexTotal (config : Config n V) (group : Option ConfigOptionGroup) : ℕ :=
  match group with
  | some groupId => (config.optionGroup groupId).indexTotal
  | none => 1

/-- All indexes of an option. -/
def cfgParseOptionResolve (parseOptionList : Fin n → ParseOption) (resolve : CfgResolve n V)
    (optionId : Fin n) : Except Error (CfgResolve n V) :=
  let option := resolve.config.option optionId
  if option.valid then
    let optionListIndexTotal := cfgParseIndexTotal resolve.config (rules.option optionId).group
    let config := resolve.config.setOption optionId
      { option with
        index := List.replicate optionListIndexTotal ⟨false, false, false, .default, none⟩ }
    (List.range optionListIndexTotal).foldlM (cfgParseOptionIndex rules parseOptionList optionId)
      { resolve with config := config }
  else .ok resolve

/-! ## Phase 6: remove group indexes that have all default values -/

def cfgParseIndexRemove (config : Config n V) (groupId : ConfigOptionGroup) (keyIdx : ℕ) :
    Config n V :=
  let group := config.optionGroup groupId
  let config :=
    -- remove the value if it is not last
    if keyIdx < group.indexTotal - 1 then
      { config with
        option := fun optionId =>
          let option := config.option optionId
          if option.group = some groupId then
            { option with
              index := Compact.memmove option.index keyIdx (keyIdx + 1) (group.indexTotal - keyIdx - 1) }
          else option
        optionGroup := Function.update config.optionGroup groupId
          { group with
            indexMap :=
              Compact.memmove group.indexMap keyIdx (keyIdx + 1) (group.indexTotal - keyIdx - 1) } }
    else config
  config.setGroup groupId { config.optionGroup groupId with indexTotal := group.indexTotal - 1 }

/-- Iterate the indexes of a group below `keyTotal`, from the last one. -/
def cfgParseIndexLoop (keep : ℕ → Bool) (groupId : ConfigOptionGroup) :
    ℕ → Config n V → Config n V
  | 0, config => config
  | keyIdx + 1, config =>
    -- each group must have at least one index
    if (config.optionGroup groupId).indexTotal = 1 then config
    else
      cfgParseIndexLoop keep groupId keyIdx
        (if keep keyIdx then config else cfgParseIndexRemove config groupId keyIdx)

/-- Remove the indexes of a group. If the remaining index is not key 1 and was
not kept then make it key 1. -/
def cfgParseGroupRemove (keep : ℕ → Bool) (config : Config n V) (groupId : ConfigOptionGroup) :
    Config n V :=
  let config := cfgParseIndexLoop keep groupId (config.optionGroup groupId).indexTotal config
  let group := config.optionGroup groupId
  if group.indexTotal = 1 ∧ keep 0 = false ∧ group.indexMap.getD 0 0 ≠ 0 then
    config.setGroup groupId { group with indexMap := group.indexMap.set 0 0 }
  else config

/-! ## The phases -/

/-- The phases of `cfgParse`: the keys in use, the configuration before phase 5,
after phase 5 and after phase 6. -/
structure CfgParsed (n : ℕ) (V : Type) where
  scan : CfgGroupScan n V
  mapped : Config n V
  resolve : CfgResolve n V
  config : Config n V

/-- Phases 4 to 6 of `cfgParse`. -/
def cfgParse (help : Bool) (parseOptionList : Fin n → ParseOption) :
    Except Error (CfgParsed n V) := do
  let scan ← (List.finRange n).foldlM (cfgParseOptionScan rules parseOptionList)
    ⟨configNew help, fun _ _ => false⟩
  let mapped := cfgParseGroupMaps scan
  let resolve ← rules.resolveOrder.foldlM (cfgParseOptionResolve rules parseOptionList)
    ⟨mapped, fun _ _ => false⟩
  let config := [ConfigOptionGroup.pg, ConfigOptionGroup.repo].foldl
    (fun config groupId => cfgParseGroupRemove (resolve.optionGroupIndexKeep groupId) config groupId)
    resolve.config
  .ok ⟨scan, mapped, resolve, config⟩

end Parse

end PgxBackup
