import PgxBackup.CfgOptionNameSafe

/-!
# Which option a name stands for

A name of an option is written with a prefix `no-` or `reset-` if its rule
allows it, and with a decimal key in front of its first dash if it has to be
or may be indexed. `cfgParseOption` takes the name apart from the outside: it
removes a prefix whenever there is one, and all digits in front of the first
dash. So each name has one reading, provided that no name of the tables has
such a prefix or such digits itself.

The key is added up in 32 bits, and its removal is not always inside of the
buffer; the results are about names for which both go right.
-/

namespace PgxBackup

open List

/-! ## Names as they are written -/

/-- A name with a key in front of its first dash. -/
def nameKeyed (name digits : Str) : Str :=
  name.takeWhile (fun c => c ≠ '-') ++ digits ++ name.dropWhile (fun c => c ≠ '-')

def namePrefix (negate reset : Bool) : Str :=
  if negate then OPTION_PREFIX_NEGATE else if reset then OPTION_PREFIX_RESET else []

/-- **A decimal key** from 1 to 256 as it is written. -/
structure DecimalKey (digits : Str) (keyIdx : ℕ) : Prop where
  ne : digits ≠ []
  digit : ∀ c ∈ digits, c.isDigit = true
  value : Nat.ofDigitChars 10 digits 0 = keyIdx + 1
  le : keyIdx + 1 ≤ 256

namespace ParseRuleNames

variable (rules : ParseRuleNames)

/-- **An exact name of an option** and whether it may be written with a key:
its own name, or a deprecated name that is not the name of an option. -/
inductive Names (ignoreMissingIndex : Bool) (name : Str) (indexed : Bool) (id : ℕ) : Prop
  | option (o : ParseRuleOptionName) (ho : rules.option[id]? = some o) (hname : o.name = name)
      (hindexed : indexed = true → o.group ≠ none)
      (hunindexed : indexed = false →
        o.group = none ∨ o.deprecateMatch = true ∨ ignoreMissingIndex = true)
  | deprecation (d : ParseRuleOptionDeprecate) (hd : d ∈ rules.deprecation) (hname : d.name = name)
      (hid : d.id = id) (hother : ∀ o ∈ rules.option, o.name ≠ name)
      (hindexed : indexed = true → d.indexed = true)
      (hunindexed : indexed = false → d.unindexed = true ∨ ignoreMissingIndex = true)

/-- **What a candidate says**: an option, a key index, and whether the option
is negated or reset. -/
structure Reading (ignoreMissingIndex : Bool) (c : Str) (id keyIdx : ℕ) (negate reset : Bool) :
    Prop where
  one : ¬ (negate = true ∧ reset = true)
  negatable : negate = true → ∀ o, rules.option[id]? = some o → o.negate = true
  resettable : reset = true → ∀ o, rules.option[id]? = some o → o.reset = true
  name : ∃ name, (c = namePrefix negate reset ++ name ∧ keyIdx = 0 ∧
        rules.Names ignoreMissingIndex name false id) ∨
      ∃ digits, c = namePrefix negate reset ++ nameKeyed name digits ∧ '-' ∈ name ∧
        DecimalKey digits keyIdx ∧ rules.Names ignoreMissingIndex name true id

def names : List Str := rules.option.map ParseRuleOptionName.name
  ++ rules.deprecation.map ParseRuleOptionDeprecate.name

/-- **Tables of plain names**: no name has a prefix, and the first dash of a
name comes after a character that is not a digit. The name of an option in a
group is the name of the group, a dash and something else. -/
structure Plain : Prop where
  zero : ∀ name ∈ rules.names, '\x00' ∉ name
  noPrefix : ∀ name ∈ rules.names, optionPrefix name = 0
  dash : ∀ name ∈ rules.names, '-' ∈ name →
    ∃ c ∈ (name.takeWhile (fun c => c ≠ '-')).getLast?, c.isDigit = false
  group : ∀ o ∈ rules.option, ∀ groupId ∈ o.group,
    '-' ∉ rules.group.getD groupId [] ∧ rules.group.getD groupId [] ++ ['-'] <+: o.name

instance : Decidable rules.Plain :=
  decidable_of_iff
    ((∀ name ∈ rules.names, '\x00' ∉ name) ∧ (∀ name ∈ rules.names, optionPrefix name = 0) ∧
      (∀ name ∈ rules.names, '-' ∈ name →
        ∃ c ∈ (name.takeWhile (fun c => c ≠ '-')).getLast?, c.isDigit = false) ∧
      ∀ o ∈ rules.option, ∀ groupId ∈ o.group,
        '-' ∉ rules.group.getD groupId [] ∧ rules.group.getD groupId [] ++ ['-'] <+: o.name)
    ⟨fun h => ⟨h.1, h.2.1, h.2.2.1, h.2.2.2⟩, fun h => ⟨h.zero, h.noPrefix, h.dash, h.group⟩⟩

end ParseRuleNames

/-- **Candidates whose key is read as it is written**: it is below `2 ^ 32`,
and its removal stays inside of the buffer. -/
def KeyInside (c : Str) : Prop :=
  ∀ base digits rest, KeyForm (c.drop (optionPrefix c)) base digits rest →
    Nat.ofDigitChars 10 digits 0 < 2 ^ 32 ∧
      base.length + (c.drop (optionPrefix c)).length ≤ OPTION_NAME_SIZE_MAX

/-! ## The lookup -/

theorem bsearch_name {α : Type} {f : α → Str} {list : List α}
    (hsorted : list.Pairwise (fun a b => f a < f b)) {name : Str} {i : ℕ} :
    BinarySearch.bsearch (fun a => strCmp name (f a)) list = some i
      ↔ ∃ a, list[i]? = some a ∧ f a = name := by
  have hcompare : BinarySearch.Sorted (fun a => strCmp name (f a)) list := by
    refine hsorted.imp fun hlt => ⟨fun h => ?_, fun h => ?_⟩
    · exact strCmp_neg.mpr ((strCmp_neg.mp h).trans hlt)
    · exact strCmp_pos.mpr (hlt.trans (strCmp_pos.mp h))
  have hsome {j : ℕ} (h : BinarySearch.bsearch (fun a => strCmp name (f a)) list = some j) :
      ∃ a, list[j]? = some a ∧ f a = name := by
    obtain ⟨a, ha, hequal⟩ := BinarySearch.bsearch_some h
    exact ⟨a, ha, (strCmp_eq_zero.mp hequal).symm⟩
  refine ⟨hsome, ?_⟩
  rintro ⟨a, ha, rfl⟩
  have hfound := (BinarySearch.bsearch_isSome_iff hcompare).mpr
    ⟨a, mem_of_getElem? ha, strCmp_eq_zero.mpr rfl⟩
  obtain ⟨j, hj⟩ := Option.isSome_iff_exists.mp hfound
  obtain ⟨b, hb, hname⟩ := hsome hj
  -- two entries of one name are one entry
  obtain ⟨hi, rfl⟩ := List.getElem?_eq_some_iff.mp ha
  obtain ⟨hj', rfl⟩ := List.getElem?_eq_some_iff.mp hb
  have hpair := pairwise_iff_getElem.mp hsorted
  rcases Nat.lt_trichotomy i j with hlt | rfl | hlt
  · exact absurd (hpair i j hi hj' hlt) (by rw [hname]; exact lt_irrefl _)
  · exact hj
  · exact absurd (hpair j i hj' hi hlt) (by rw [hname]; exact lt_irrefl _)

theorem bsearch_name_none {α : Type} {f : α → Str} {list : List α}
    (hsorted : list.Pairwise (fun a b => f a < f b)) {name : Str} :
    BinarySearch.bsearch (fun a => strCmp name (f a)) list = none
      ↔ ∀ a ∈ list, f a ≠ name := by
  rw [Option.eq_none_iff_forall_not_mem]
  constructor
  · intro h a ha hname
    obtain ⟨i, hi⟩ := getElem?_of_mem ha
    exact h i ((bsearch_name hsorted).mpr ⟨a, hi, hname⟩)
  · intro h i hi
    obtain ⟨a, ha, hname⟩ := (bsearch_name hsorted).mp hi
    exact h a (mem_of_getElem? ha) hname

namespace ParseRuleNames

variable {rules : ParseRuleNames} {ignoreMissingIndex : Bool} {c s : Str} {name : OptionName}
variable {indexed : Bool} {id : ℕ}

/-- The option of a name without prefix and key, in the way that the rules
allow to write it. -/
theorem find_eq_iff (hname : cString name.buffer = s) {deprecated : Bool} :
    rules.cfgParseOptionFind false ignoreMissingIndex c name indexed = .ok (some (id, deprecated))
      ↔ (deprecated = false ∧ ∃ o, rules.option[id]? = some o ∧ o.name = s) ∨
        (deprecated = true ∧ ∃ d ∈ rules.deprecation, d.name = s ∧ d.id = id ∧
          (∀ o ∈ rules.option, o.name ≠ s) ∧ (indexed = true → d.indexed = true) ∧
          (indexed = false → d.unindexed = true ∨ ignoreMissingIndex = true)) := by
  unfold cfgParseOptionFind optionFind deprecateFind
  rw [hname, if_neg Bool.false_ne_true, if_neg Bool.false_ne_true, Option.or_none, Option.or_none]
  cases hoption : BinarySearch.bsearch (fun o => strCmp s o.name) rules.option with
  | some i =>
    obtain ⟨o, ho, hos⟩ := (bsearch_name rules.option_sorted).mp hoption
    constructor
    · intro h
      cases h
      exact .inl ⟨rfl, o, ho, hos⟩
    · rintro (⟨rfl, o', ho', hos'⟩ | ⟨_, _, _, _, _, hother, _⟩)
      · have hid := (bsearch_name rules.option_sorted).mpr ⟨o', ho', hos'⟩
        rw [hoption, Option.some.injEq] at hid
        rw [hid]
      · exact absurd hos (hother o (mem_of_getElem? ho))
  | none =>
    have hother := (bsearch_name_none rules.option_sorted).mp hoption
    have hnot : ¬ (deprecated = false ∧ ∃ o, rules.option[id]? = some o ∧ o.name = s) :=
      fun ⟨_, o, ho, hos⟩ => hother o (mem_of_getElem? ho) hos
    rw [or_iff_right hnot]
    cases hdeprecation : BinarySearch.bsearch (fun d => strCmp s d.name) rules.deprecation with
    | none =>
      refine iff_of_false nofun ?_
      rintro ⟨_, d, hd, hds, _⟩
      exact (bsearch_name_none rules.deprecation_sorted).mp hdeprecation d hd hds
    | some i =>
      obtain ⟨d, hd, hds⟩ := (bsearch_name rules.deprecation_sorted).mp hdeprecation
      have hmem := mem_of_getElem? hd
      rw [Option.bind_some, hd]
      dsimp only
      rw [getElem?_eq_getElem (rules.deprecation_id d hmem)]
      have hsame : ∀ d' ∈ rules.deprecation, d'.name = s → d' = d := by
        intro d' hd' hds'
        obtain ⟨j, hj⟩ := getElem?_of_mem hd'
        have hi := (bsearch_name rules.deprecation_sorted).mpr ⟨d', hj, hds'⟩
        rw [hdeprecation, Option.some.injEq] at hi
        rw [← hi, hd] at hj
        exact (Option.some.inj hj).symm
      constructor
      · intro h
        split at h
        next => cases h
        next hin =>
          dsimp only at h
          split at h
          next => cases h
          next hun =>
            cases h
            refine ⟨rfl, d, hmem, hds, rfl, hother, ?_, ?_⟩
            · rintro rfl
              by_contra hne
              exact hin ⟨rfl, hne⟩
            · rintro rfl
              by_contra hne
              rw [not_or] at hne
              exact hun ⟨Bool.false_ne_true, hne⟩
      · rintro ⟨rfl, d', hd', hds', rfl, -, hin, hun⟩
        rw [hsame d' hd' hds'] at hin hun ⊢
        rw [if_neg fun h => h.2 (hin h.1)]
        dsimp only
        rw [if_neg]
        rintro ⟨hfalse, hun', hign⟩
        exact (hun (by simpa using hfalse)).elim hun' hign

/-- **What the rule allows.** -/
theorem check_eq_ok_iff {o : ParseRuleOptionName} {result : CfgParseOptionResult} :
    (∃ result', rules.cfgParseOptionCheck ignoreMissingIndex c o result indexed = .ok result') ↔
      (result.negate = true → o.negate = true) ∧ (result.reset = true → o.reset = true) ∧
        (result.deprecated = true ∨ ((indexed = true → o.group ≠ none) ∧ (indexed = false →
          o.group = none ∨ o.deprecateMatch = true ∨ ignoreMissingIndex = true))) := by
  unfold cfgParseOptionCheck
  by_cases hnegate : result.negate = true ∧ ¬ o.negate = true
  · rw [if_pos hnegate]
    exact iff_of_false nofun (fun h => hnegate.2 (h.1 hnegate.1))
  by_cases hreset : result.reset = true ∧ ¬ o.reset = true
  · rw [if_neg hnegate, if_pos hreset]
    exact iff_of_false nofun (fun h => hreset.2 (h.2.1 hreset.1))
  rw [not_and_not_right] at hnegate hreset
  rw [if_neg (not_and_not_right.mpr hnegate), if_neg (not_and_not_right.mpr hreset)]
  refine Iff.trans ?_ (and_iff_right hnegate).symm
  refine Iff.trans ?_ (and_iff_right hreset).symm
  dsimp only
  cases hdeprecated : result.deprecated with
  | true =>
    rw [if_neg (by simp), if_neg (by simp)]
    exact iff_of_true ⟨_, rfl⟩ (.inl rfl)
  | false =>
    rw [or_iff_right Bool.false_ne_true, Bool.false_or]
    cases indexed with
    | true =>
      rw [if_neg (show ¬ (_ ∧ ¬ true = true ∧ _) from fun h => h.2.1 rfl)]
      by_cases hgroup : o.group = none
      · rw [if_pos ⟨by simp, rfl, hgroup⟩]
        exact iff_of_false nofun (fun h => h.1 rfl hgroup)
      · rw [if_neg fun h => hgroup h.2.2]
        exact iff_of_true ⟨_, rfl⟩ ⟨fun _ => hgroup, nofun⟩
    | false =>
      rw [if_neg (show ¬ (_ ∧ false = true ∧ _) from fun h => Bool.false_ne_true h.2.1)]
      by_cases hgroup : o.group = none
      · rw [if_neg fun h => h.2.2.1 hgroup]
        exact iff_of_true ⟨_, rfl⟩ ⟨nofun, fun _ => .inl hgroup⟩
      · cases hmatch : o.deprecateMatch with
        | true =>
          rw [if_neg fun h => h.1 rfl]
          exact iff_of_true ⟨_, rfl⟩ ⟨nofun, fun _ => .inr (.inl rfl)⟩
        | false =>
          by_cases hmissing : ignoreMissingIndex = true
          · rw [if_neg fun h => h.2.2.2 hmissing]
            exact iff_of_true ⟨_, rfl⟩ ⟨nofun, fun _ => .inr (.inr hmissing)⟩
          · rw [if_pos ⟨Bool.false_ne_true, Bool.false_ne_true, hgroup, hmissing⟩]
            refine iff_of_false nofun (fun h => ?_)
            rcases h.2 rfl with h | h | h
            · exact hgroup h
            · exact Bool.false_ne_true h
            · exact hmissing h

theorem check_ok {o : ParseRuleOptionName} {result result' : CfgParseOptionResult}
    (h : rules.cfgParseOptionCheck ignoreMissingIndex c o result indexed = .ok result') :
    result'.found = result.found ∧ result'.id = result.id ∧ result'.keyIdx = result.keyIdx ∧
      result'.negate = result.negate ∧ result'.reset = result.reset := by
  unfold cfgParseOptionCheck at h
  split at h
  next => cases h
  next =>
    split at h
    next => cases h
    next =>
      dsimp only at h
      split at h
      next => cases h
      next =>
        split at h
        next => cases h
        next => cases h; exact ⟨rfl, rfl, rfl, rfl, rfl⟩

/-- **The lookup of a name without prefix and key.** -/
theorem lookup_iff (hname : cString name.buffer = s) (result : ℕ → Bool → CfgParseOptionResult)
    {negate reset : Bool} (hresult : ∀ id deprecated, (result id deprecated).negate = negate ∧
      (result id deprecated).reset = reset ∧ (result id deprecated).deprecated = deprecated) :
    (∃ deprecated, rules.cfgParseOptionFind false ignoreMissingIndex c name indexed
        = .ok (some (id, deprecated)) ∧
      ∃ o, rules.option[id]? = some o ∧ ∃ result', rules.cfgParseOptionCheck ignoreMissingIndex c o
        (result id deprecated) indexed = .ok result') ↔
      rules.Names ignoreMissingIndex s indexed id ∧
        (negate = true → ∀ o, rules.option[id]? = some o → o.negate = true) ∧
        (reset = true → ∀ o, rules.option[id]? = some o → o.reset = true) := by
  simp only [find_eq_iff hname, check_eq_ok_iff, (hresult _ _).1, (hresult _ _).2.1,
    (hresult _ _).2.2]
  constructor
  · rintro ⟨deprecated, hfind, o, ho, hnegate, hreset, hindexed⟩
    have hunique {o' : ParseRuleOptionName} (ho' : rules.option[id]? = some o') : o' = o := by
      rw [ho] at ho'
      exact (Option.some.inj ho').symm
    refine ⟨?_, fun h o' ho' => hunique ho' ▸ hnegate h, fun h o' ho' => hunique ho' ▸ hreset h⟩
    rcases hfind with ⟨rfl, o', ho', hos⟩ | ⟨rfl, d, hd, hds, hid, hother, hin, hun⟩
    · rw [or_iff_right Bool.false_ne_true] at hindexed
      exact .option o ho (hunique ho' ▸ hos) hindexed.1 hindexed.2
    · exact .deprecation d hd hds hid hother hin hun
  · rintro ⟨hnames, hnegate, hreset⟩
    cases hnames with
    | option o ho hos hin hun =>
      exact ⟨false, .inl ⟨rfl, o, ho, hos⟩, o, ho, fun h => hnegate h o ho, fun h => hreset h o ho,
        .inr ⟨hin, hun⟩⟩
    | deprecation d hd hds hid hother hin hun =>
      subst hid
      have ho := getElem?_eq_getElem (rules.deprecation_id d hd)
      exact ⟨true, .inr ⟨rfl, d, hd, hds, rfl, hother, hin, hun⟩, _, ho,
        fun h => hnegate h _ ho, fun h => hreset h _ ho, .inl rfl⟩

end ParseRuleNames

/-! ## The key -/

section Key

variable {c s base digits rest : Str} {name : OptionName}

section

variable (h : name.Stored s)
include h

theorem cfgParseOptionKey_none (hdash : '-' ∉ cString s) :
    cfgParseOptionKey c name = .ok (name, none) := by
  unfold cfgParseOptionKey
  rw [h.dash_none hdash]

theorem cfgParseOptionKey_plain (hform : DashForm s base [] rest) (hbase : base ≠ []) :
    cfgParseOptionKey c name = .ok (name, none) := by
  have hpos := length_pos_iff.mpr hbase
  unfold cfgParseOptionKey
  rw [h.dash hform]
  dsimp only
  rw [h.key hform, if_neg (by rw [length_nil]; omega), if_neg hpos.ne']
  exact if_pos rfl

theorem cfgParseOptionKey_begin (hform : DashForm s [] digits rest) :
    ∃ e, cfgParseOptionKey c name = .error e := by
  unfold cfgParseOptionKey
  rw [h.dash hform]
  dsimp only
  rw [h.key hform]
  split
  · exact ⟨_, rfl⟩
  · exact ⟨_, rfl⟩

/-- **A key**, if it is below `2 ^ 32` and its removal stays inside of the
buffer. -/
theorem cfgParseOptionKey_key (hform : KeyForm s base digits rest)
    (hvalue : Nat.ofDigitChars 10 digits 0 < 2 ^ 32)
    (hfits : base.length + s.length ≤ OPTION_NAME_SIZE_MAX) :
    if 1 ≤ Nat.ofDigitChars 10 digits 0 ∧ Nat.ofDigitChars 10 digits 0 ≤ 256 then
      ∃ name', cfgParseOptionKey c name = .ok (name', some (Nat.ofDigitChars 10 digits 0 - 1)) ∧
        name'.Stored (base ++ '-' :: rest)
    else ∃ e, cfgParseOptionKey c name = .error e := by
  have hbase := length_pos_iff.mpr hform.base_ne
  have hdigits := length_pos_iff.mpr hform.digits_ne
  have hedit := h.edit ⟨base.length, base.length + digits.length⟩ (Nat.le_add_right _ _)
    (by rw [hform.cString_eq, length_append, length_append]; exact Nat.le_add_right _ _)
  rw [if_pos hfits, hform.removed] at hedit
  obtain ⟨name', hname', hstored'⟩ := hedit
  have hkey : cfgParseOptionKey c name
      = if UInt32.ofNat (Nat.ofDigitChars 10 digits 0) < 1 ∨
          optionKeyMax < UInt32.ofNat (Nat.ofDigitChars 10 digits 0) then
          .error (optionInvalid ["option '".toList, c, "' key must be between 1 and 256".toList])
        else .ok (name', some (UInt32.ofNat (Nat.ofDigitChars 10 digits 0) - 1).toNat) := by
    unfold cfgParseOptionKey
    rw [h.dash hform.toDashForm]
    dsimp only
    rw [h.key hform.toDashForm, if_neg (by omega), if_neg (by dsimp only; omega),
      if_neg (by dsimp only; omega), hname']
    rfl
  rw [hkey]
  generalize Nat.ofDigitChars 10 digits 0 = value at hvalue ⊢
  have htoNat : (UInt32.ofNat value).toNat = value := UInt32.toNat_ofNat_of_lt hvalue
  have hlt : UInt32.ofNat value < 1 ↔ value < 1 := by
    rw [UInt32.lt_iff_toNat_lt, htoNat]
    rfl
  have hgt : optionKeyMax < UInt32.ofNat value ↔ 256 < value := by
    rw [UInt32.lt_iff_toNat_lt, htoNat]
    rfl
  split
  next hin =>
    rw [if_neg (by rw [hlt, hgt]; omega), UInt32.toNat_sub_of_le _ _ (by
      rw [UInt32.le_iff_toNat_le, htoNat]; exact hin.1), htoNat]
    exact ⟨name', rfl, hstored'⟩
  next hout =>
    rw [if_pos (by rw [hlt, hgt]; omega)]
    exact ⟨_, rfl⟩

end

end Key

/-! ## The whole name -/

section Resolve

variable {c w : Str}

theorem namePrefix_append_drop (c : Str) :
    namePrefix (decide (optionPrefix c = OPTION_PREFIX_NEGATE.length))
      (decide (optionPrefix c = OPTION_PREFIX_RESET.length)) ++ c.drop (optionPrefix c) = c := by
  unfold optionPrefix
  split
  next h =>
    obtain ⟨w, rfl⟩ := h
    rw [drop_left]
    rfl
  next =>
    split
    next h =>
      obtain ⟨w, rfl⟩ := h
      rw [drop_left]
      rfl
    next => rfl

theorem optionPrefix_negate (w : Str) :
    optionPrefix (OPTION_PREFIX_NEGATE ++ w) = OPTION_PREFIX_NEGATE.length :=
  if_pos (prefix_append _ _)

theorem optionPrefix_reset (w : Str) :
    optionPrefix (OPTION_PREFIX_RESET ++ w) = OPTION_PREFIX_RESET.length := by
  unfold optionPrefix
  rw [if_neg, if_pos (prefix_append _ _)]
  rintro ⟨rest, hrest⟩
  exact absurd (congrArg head? hrest) (by
    show some 'n' ≠ some 'r'
    decide)

theorem optionPrefix_namePrefix {negate reset : Bool} (hone : ¬ (negate = true ∧ reset = true))
    (hw : optionPrefix w = 0) :
    decide (optionPrefix (namePrefix negate reset ++ w) = OPTION_PREFIX_NEGATE.length) = negate ∧
      decide (optionPrefix (namePrefix negate reset ++ w) = OPTION_PREFIX_RESET.length) = reset ∧
      (namePrefix negate reset ++ w).drop (optionPrefix (namePrefix negate reset ++ w)) = w := by
  cases negate with
  | true =>
    have hreset : reset = false := by simpa using hone
    subst hreset
    show decide (optionPrefix (OPTION_PREFIX_NEGATE ++ w) = _) = _ ∧ _ ∧
      (OPTION_PREFIX_NEGATE ++ w).drop (optionPrefix (OPTION_PREFIX_NEGATE ++ w)) = w
    rw [optionPrefix_negate]
    refine ⟨rfl, ?_, drop_left⟩
    show decide (optionPrefix (OPTION_PREFIX_NEGATE ++ w) = _) = _
    rw [optionPrefix_negate]
    rfl
  | false =>
    cases reset with
    | true =>
      show decide (optionPrefix (OPTION_PREFIX_RESET ++ w) = _) = _ ∧
        decide (optionPrefix (OPTION_PREFIX_RESET ++ w) = _) = _ ∧
        (OPTION_PREFIX_RESET ++ w).drop (optionPrefix (OPTION_PREFIX_RESET ++ w)) = w
      rw [optionPrefix_reset]
      exact ⟨rfl, rfl, drop_left⟩
    | false =>
      show decide (optionPrefix w = _) = _ ∧ decide (optionPrefix w = _) = _ ∧
        w.drop (optionPrefix w) = w
      rw [hw]
      exact ⟨rfl, rfl, rfl⟩

/-- The result before the rule of the option is checked. -/
def optionResult (c : Str) (keyIdx : Option ℕ) (id : ℕ) (deprecated : Bool) :
    CfgParseOptionResult where
  found := true
  id := id
  keyIdx := keyIdx.getD 0
  negate := optionPrefix c = OPTION_PREFIX_NEGATE.length
  reset := optionPrefix c = OPTION_PREFIX_RESET.length
  deprecated := deprecated
  beta := false
  multi := false

variable {rules : ParseRuleNames} {ignoreMissingIndex : Bool} {stripped : OptionName}
variable {id keyIdx : ℕ} {negate reset : Bool}

section

variable (hc : c.length ≤ OPTION_NAME_SIZE_MAX)
  (hstripped : (optionNameCopy c).edited (optionNameCopy c).prefixEdit = some stripped)
include hc hstripped

theorem cfgParseOption_eq :
    rules.cfgParseOption false ignoreMissingIndex c = (do
      let (name, keyIdx) ← cfgParseOptionKey c stripped
      match ← rules.cfgParseOptionFind false ignoreMissingIndex c name keyIdx.isSome with
      | none => .ok cfgParseOptionNotFound
      | some (id, deprecated) =>
        match rules.option[id]? with
        | none => .error none
        | some option =>
          rules.cfgParseOptionCheck ignoreMissingIndex c option
            (optionResult c keyIdx id deprecated) keyIdx.isSome) := by
  unfold ParseRuleNames.cfgParseOption
  rw [if_neg (not_lt.mpr hc)]
  dsimp only
  rw [hstripped, prefixSize_copy]
  rfl

/-- **An option is found** when the key is right, and the name without prefix
and key is one of the option. -/
theorem cfgParseOption_found_iff :
    (∃ result, rules.cfgParseOption false ignoreMissingIndex c = .ok result ∧
        result.found = true ∧ result.id = id ∧ result.keyIdx = keyIdx ∧
        result.negate = negate ∧ result.reset = reset) ↔
      ∃ name key, cfgParseOptionKey c stripped = .ok (name, key) ∧ key.getD 0 = keyIdx ∧
        decide (optionPrefix c = OPTION_PREFIX_NEGATE.length) = negate ∧
        decide (optionPrefix c = OPTION_PREFIX_RESET.length) = reset ∧
        rules.Names ignoreMissingIndex (cString name.buffer) key.isSome id ∧
        (negate = true → ∀ o, rules.option[id]? = some o → o.negate = true) ∧
        (reset = true → ∀ o, rules.option[id]? = some o → o.reset = true) := by
  rw [cfgParseOption_eq hc hstripped]
  constructor
  · rintro ⟨result, hresult, hfound, rfl, rfl, rfl, rfl⟩
    obtain ⟨⟨name, key⟩, hkey, hresult⟩ := ok_of_bind hresult
    obtain ⟨place, hfind, hresult⟩ := ok_of_bind hresult
    cases place with
    | none =>
      cases hresult
      cases hfound
    | some place =>
      obtain ⟨id, deprecated⟩ := place
      dsimp only at hresult
      cases ho : rules.option[id]? with
      | none => rw [ho] at hresult; cases hresult
      | some o =>
        rw [ho] at hresult
        obtain ⟨-, hid, hkeyIdx, hnegate, hreset⟩ := ParseRuleNames.check_ok hresult
        refine ⟨name, key, hkey, hkeyIdx.symm, hnegate.symm, hreset.symm, ?_⟩
        rw [hid, hnegate, hreset]
        exact (ParseRuleNames.lookup_iff rfl (optionResult c key)
          (fun _ _ => ⟨rfl, rfl, rfl⟩)).mp ⟨deprecated, hfind, o, ho, _, hresult⟩
  · rintro ⟨name, key, hkey, rfl, rfl, rfl, hlookup⟩
    obtain ⟨deprecated, hfind, o, ho, result, hresult⟩ :=
      (ParseRuleNames.lookup_iff rfl (optionResult c key) (fun _ _ => ⟨rfl, rfl, rfl⟩)).mpr hlookup
    obtain ⟨hfound, hid, hkeyIdx, hnegate, hreset⟩ := ParseRuleNames.check_ok hresult
    refine ⟨result, ?_, hfound, hid, hkeyIdx, hnegate, hreset⟩
    rw [hkey, ok_bind]
    dsimp only
    rw [hfind, ok_bind]
    dsimp only
    rw [ho]
    exact hresult

end

end Resolve

/-! ## Plain names -/

theorem takeWhile_dash {front : Str} (hdash : '-' ∉ front) (rest : Str) :
    (front ++ '-' :: rest).takeWhile (fun c => c ≠ '-') = front := by
  rw [takeWhile_append_of_pos fun c hc => decide_eq_true (by rintro rfl; exact hdash hc)]
  exact append_nil front

theorem nameKeyed_append {base : Str} (hdash : '-' ∉ base) (digits rest : Str) :
    nameKeyed (base ++ '-' :: rest) digits = base ++ digits ++ '-' :: rest := by
  unfold nameKeyed
  rw [takeWhile_dash hdash,
    dropWhile_append_of_pos fun c hc => decide_eq_true (by rintro rfl; exact hdash hc)]
  rfl

theorem DashForm.unique {s base digits rest base' digits' rest' : Str}
    (h : DashForm s base digits rest) (h' : DashForm s base' digits' rest') :
    base = base' ∧ digits = digits' := by
  have hbase {base digits : Str} (hlast : ∀ c ∈ base.getLast?, c.isDigit = false)
      (hdigit : ∀ c ∈ digits, c.isDigit = true) :
      (base ++ digits).rdropWhile Char.isDigit = base := by
    induction digits using reverseRecOn with
    | nil =>
      rw [append_nil, rdropWhile_eq_self_iff]
      intro hne
      rw [hlast _ (getLast?_eq_getLast_of_ne_nil hne)]
      exact Bool.false_ne_true
    | append_singleton digits c ih =>
      rw [← append_assoc, rdropWhile_concat_pos _ _ _ (hdigit c (by simp))]
      exact ih fun x hx => hdigit x (by simp [hx])
  have hfront := takeWhile_dash h.dash_front rest
  rw [← h.eq, h'.eq, takeWhile_dash h'.dash_front] at hfront
  have hsame := congrArg (rdropWhile Char.isDigit) hfront
  rw [hbase h.last h.digit, hbase h'.last h'.digit] at hsame
  subst hsame
  exact ⟨rfl, (append_cancel_left hfront).symm⟩

/-- A prefix ends with a dash that comes after a letter. -/
theorem optionPrefix_keyForm {s base digits rest : Str} (h : KeyForm s base digits rest) :
    optionPrefix s = 0 := by
  have hno {front : Str} (hdash : '-' ∉ front) (hlast : ∀ c ∈ front.getLast?, c.isDigit = false) :
      ¬ front ++ ['-'] <+: s := by
    rintro ⟨w, hw⟩
    have hfront := takeWhile_dash hdash w
    rw [append_cons, hw, h.eq, takeWhile_dash h.dash_front] at hfront
    have hne := h.digits_ne
    have hlast' := hlast (digits.getLast hne) (by
      rw [← hfront, getLast?_append_of_ne_nil _ hne, getLast?_eq_getLast_of_ne_nil hne]
      rfl)
    rw [h.digit _ (getLast_mem hne)] at hlast'
    cases hlast'
  have hnegate : ¬ OPTION_PREFIX_NEGATE <+: s :=
    hno (show '-' ∉ "no".toList by decide) (by decide)
  have hreset : ¬ OPTION_PREFIX_RESET <+: s :=
    hno (show '-' ∉ "reset".toList by decide) (by decide)
  unfold optionPrefix
  rw [if_neg hnegate, if_neg hreset]

namespace ParseRuleNames

variable {rules : ParseRuleNames}

variable {ignoreMissingIndex : Bool}

theorem Names.mem {name : Str} {indexed : Bool} {id : ℕ}
    (h : rules.Names ignoreMissingIndex name indexed id) : name ∈ rules.names := by
  cases h with
  | option o ho hname =>
    exact mem_append_left _ (mem_map.mpr ⟨o, mem_of_getElem? ho, hname⟩)
  | deprecation d hd hname => exact mem_append_right _ (mem_map.mpr ⟨d, hd, hname⟩)

section

variable {name : Str} (hplain : rules.Plain) (hmem : name ∈ rules.names)
include hplain hmem

theorem Plain.dashForm (hdash : '-' ∈ name) : ∃ base rest, name = base ++ '-' :: rest ∧ base ≠ [] ∧
      DashForm name base [] rest := by
  obtain ⟨base, rest, rfl, hbase⟩ := eq_append_cons_of_mem hdash
  obtain ⟨c, hc, hdigit⟩ := hplain.dash _ hmem hdash
  rw [takeWhile_dash hbase] at hc
  refine ⟨base, rest, rfl, ?_, by rw [append_nil], ?_, nofun, hbase, fun hzero =>
    hplain.zero _ hmem (mem_append_left _ hzero)⟩
  · rintro rfl
    cases hc
  · intro c' hc'
    rw [Option.mem_def.mp hc] at hc'
    cases hc'
    exact hdigit

theorem Plain.key {c : Str} {stripped : OptionName} (hstored : stripped.Stored name) :
    cfgParseOptionKey c stripped = .ok (stripped, none) := by
  by_cases hdash : '-' ∈ name
  · obtain ⟨base, rest, -, hbase, hform⟩ := hplain.dashForm hmem hdash
    exact cfgParseOptionKey_plain hstored hform hbase
  · exact cfgParseOptionKey_none hstored (fun h =>
      hdash ((List.takeWhile_prefix _).subset h))

/-- **Where the key is written.** -/
theorem Plain.keyForm {digits : Str} {keyIdx : ℕ} (hdash : '-' ∈ name)
    (hkey : DecimalKey digits keyIdx) :
    ∃ base rest, name = base ++ '-' :: rest ∧ KeyForm (nameKeyed name digits) base digits rest := by
  obtain ⟨base, rest, rfl, hbase, hform⟩ := hplain.dashForm hmem hdash
  refine ⟨base, rest, rfl, ⟨?_, hform.last, hkey.digit, hform.dash, hform.zero⟩, hbase, hkey.ne⟩
  exact nameKeyed_append hform.dash digits rest

end

/-- **What is found is a reading of the candidate.** -/
theorem reading_of_key {c : Str} {id : ℕ} (hzero : '\x00' ∉ c)
    (hinside : KeyInside c) {stripped : OptionName}
    (hstored : stripped.Stored (c.drop (optionPrefix c))) {name : OptionName} {key : Option ℕ}
    (hkey : cfgParseOptionKey c stripped = .ok (name, key))
    (hnames : rules.Names ignoreMissingIndex (cString name.buffer) key.isSome id) :
    ∃ n, (c.drop (optionPrefix c) = n ∧ key.getD 0 = 0 ∧ rules.Names ignoreMissingIndex n false id) ∨
      ∃ digits, c.drop (optionPrefix c) = nameKeyed n digits ∧ '-' ∈ n ∧
        DecimalKey digits (key.getD 0) ∧ rules.Names ignoreMissingIndex n true id := by
  have hdrop : cString (c.drop (optionPrefix c)) = c.drop (optionPrefix c) :=
    cString_of_not_mem fun h => hzero (mem_of_mem_drop h)
  -- the name is taken as it is
  have hplain (hk : cfgParseOptionKey c stripped = .ok (stripped, none)) :
      ∃ n, (c.drop (optionPrefix c) = n ∧ key.getD 0 = 0 ∧
          rules.Names ignoreMissingIndex n false id) ∨
        ∃ digits, c.drop (optionPrefix c) = nameKeyed n digits ∧ '-' ∈ n ∧
          DecimalKey digits (key.getD 0) ∧ rules.Names ignoreMissingIndex n true id := by
    rw [hk] at hkey
    cases hkey
    rw [hstored.cString_buffer, hdrop] at hnames
    exact ⟨_, .inl ⟨rfl, rfl, hnames⟩⟩
  by_cases hdash : '-' ∈ cString (c.drop (optionPrefix c))
  · obtain ⟨base, digits, rest, hform⟩ := DashForm.exists_of_mem hdash
    by_cases hbase : base = []
    · subst hbase
      obtain ⟨e, he⟩ := cfgParseOptionKey_begin (c := c) hstored hform
      rw [he] at hkey
      cases hkey
    by_cases hdigits : digits = []
    · subst hdigits
      exact hplain (cfgParseOptionKey_plain hstored hform hbase)
    have hkeyForm : KeyForm _ base digits rest := ⟨hform, hbase, hdigits⟩
    obtain ⟨hvalue, hfits⟩ := hinside base digits rest hkeyForm
    have hspec := cfgParseOptionKey_key (c := c) hstored hkeyForm hvalue hfits
    split at hspec
    next hin =>
      obtain ⟨name', hname', hstored'⟩ := hspec
      rw [hname'] at hkey
      cases hkey
      rw [hstored'.cString_buffer] at hnames
      have hrest : '\x00' ∉ base ++ '-' :: rest := by
        have hfree : '\x00' ∉ c.drop (optionPrefix c) := fun h => hzero (mem_of_mem_drop h)
        rw [hform.eq] at hfree
        simp only [mem_append, mem_cons, not_or] at hfree ⊢
        exact ⟨hfree.1.1, hfree.2⟩
      rw [cString_of_not_mem hrest] at hnames
      refine ⟨base ++ '-' :: rest, .inr ⟨digits, ?_, by simp, ⟨hdigits, hform.digit, ?_, ?_⟩,
        hnames⟩⟩
      · rw [nameKeyed_append hform.dash]
        exact hform.eq
      · show _ = Nat.ofDigitChars 10 digits 0 - 1 + 1
        omega
      · show Nat.ofDigitChars 10 digits 0 - 1 + 1 ≤ 256
        omega
    next =>
      obtain ⟨e, he⟩ := hspec
      rw [he] at hkey
      cases hkey
  · exact hplain (cfgParseOptionKey_none hstored hdash)

theorem Plain.key_of_reading (hplain : rules.Plain) {c w : Str}
    {id keyIdx : ℕ} {stripped : OptionName} (hstored : stripped.Stored w)
    (hinside : ∀ base digits rest, KeyForm w base digits rest →
      Nat.ofDigitChars 10 digits 0 < 2 ^ 32 ∧ base.length + w.length ≤ OPTION_NAME_SIZE_MAX)
    (h : ∃ n, (w = n ∧ keyIdx = 0 ∧ rules.Names ignoreMissingIndex n false id) ∨
      ∃ digits, w = nameKeyed n digits ∧ '-' ∈ n ∧
        DecimalKey digits keyIdx ∧ rules.Names ignoreMissingIndex n true id) :
    ∃ name key, cfgParseOptionKey c stripped = .ok (name, key) ∧ key.getD 0 = keyIdx ∧
      rules.Names ignoreMissingIndex (cString name.buffer) key.isSome id := by
  obtain ⟨n, ⟨rfl, rfl, hnames⟩ | ⟨digits, rfl, hdash, hdecimal, hnames⟩⟩ := h
  · refine ⟨stripped, none, hplain.key hnames.mem hstored, rfl, ?_⟩
    rw [hstored.cString_buffer, cString_of_not_mem (hplain.zero _ hnames.mem)]
    exact hnames
  · obtain ⟨base, rest, rfl, hform⟩ := hplain.keyForm hnames.mem hdash hdecimal
    obtain ⟨hvalue, hfits⟩ := hinside base digits rest hform
    have hspec := cfgParseOptionKey_key (c := c) hstored hform hvalue hfits
    have hle := hdecimal.le
    rw [hdecimal.value, if_pos ⟨by omega, hle⟩] at hspec
    obtain ⟨name, hname, hstored'⟩ := hspec
    refine ⟨name, some keyIdx, hname, rfl, ?_⟩
    rw [hstored'.cString_buffer, cString_of_not_mem (hplain.zero _ hnames.mem)]
    exact hnames

/-- **A candidate stands for an option exactly when it has such a reading.** -/
theorem Plain.resolves (hplain : rules.Plain) (ignoreMissingIndex : Bool) {c : Str}
    (hc : c.length ≤ OPTION_NAME_SIZE_MAX) (hzero : '\x00' ∉ c) (hinside : KeyInside c)
    (id keyIdx : ℕ) (negate reset : Bool) :
    (∃ result, rules.cfgParseOption false ignoreMissingIndex c = .ok result ∧
        result.found = true ∧ result.id = id ∧ result.keyIdx = keyIdx ∧
        result.negate = negate ∧ result.reset = reset) ↔
      rules.Reading ignoreMissingIndex c id keyIdx negate reset := by
  obtain ⟨stripped, hstripped, hstored⟩ := stored_prefix hc
  rw [cfgParseOption_found_iff hc hstripped]
  have hsplit := namePrefix_append_drop c
  constructor
  · rintro ⟨name, key, hkey, rfl, rfl, rfl, hnames, hnegate, hreset⟩
    refine ⟨?_, hnegate, hreset, ?_⟩
    · rintro ⟨h, h'⟩
      rw [of_decide_eq_true h] at h'
      cases of_decide_eq_true h'
    · obtain ⟨n, h | ⟨digits, h, hrest⟩⟩ := reading_of_key hzero hinside hstored hkey hnames
      · exact ⟨n, .inl ⟨by rw [← h.1, hsplit], h.2⟩⟩
      · exact ⟨n, .inr ⟨digits, by rw [← h, hsplit], hrest⟩⟩
  · intro hreading
    -- what the candidate is written with in front of the name
    have hw : ∃ w, c = namePrefix negate reset ++ w ∧ optionPrefix w = 0 ∧
        ∃ n, (w = n ∧ keyIdx = 0 ∧ rules.Names ignoreMissingIndex n false id) ∨
          ∃ digits, w = nameKeyed n digits ∧ '-' ∈ n ∧
            DecimalKey digits keyIdx ∧ rules.Names ignoreMissingIndex n true id := by
      obtain ⟨n, ⟨hn, hkey, hnames⟩ | ⟨digits, hn, hdash, hdecimal, hnames⟩⟩ := hreading.name
      · exact ⟨n, hn, hplain.noPrefix n hnames.mem, n, .inl ⟨rfl, hkey, hnames⟩⟩
      · obtain ⟨base, rest, _, hform⟩ := hplain.keyForm hnames.mem hdash hdecimal
        exact ⟨_, hn, optionPrefix_keyForm hform, n, .inr ⟨digits, rfl, hdash, hdecimal, hnames⟩⟩
    obtain ⟨w, rfl, hw, hn⟩ := hw
    obtain ⟨hnegate, hreset, hdrop⟩ := optionPrefix_namePrefix hreading.one hw
    rw [hdrop] at hstored
    unfold KeyInside at hinside
    rw [hdrop] at hinside
    obtain ⟨name, key, hkey, hkeyIdx, hnames⟩ := hplain.key_of_reading
      (c := namePrefix negate reset ++ w) hstored hinside hn
    exact ⟨name, key, hkey, hkeyIdx, hnegate, hreset, hnames, hreading.negatable,
      hreading.resettable⟩

theorem decimalKey_toDigits {keyIdx : ℕ} (hkeyIdx : keyIdx < 256) :
    DecimalKey (Nat.toDigits 10 (keyIdx + 1)) keyIdx :=
  ⟨Nat.toDigits_ne_nil, fun _ hc => Nat.isDigit_of_mem_toDigits (by decide) le_rfl hc,
    Nat.ofDigitChars_toDigits (by decide) le_rfl, hkeyIdx⟩

/-- **Names that the program writes are found.** -/
theorem Plain.resolves_keyIdxName (hplain : rules.Plain) (ignoreMissingIndex : Bool) {id : ℕ}
    {option : ParseRuleOptionName} (hoption : rules.option[id]? = some option) {keyIdx : ℕ}
    (hkeyIdx : keyIdx < 256) (hnone : option.group = none → keyIdx = 0)
    (hc : (rules.cfgParseOptionKeyIdxName option keyIdx).length ≤ OPTION_NAME_SIZE_MAX)
    (hfits : ∀ groupId ∈ option.group, (rules.group.getD groupId []).length
      + (rules.cfgParseOptionKeyIdxName option keyIdx).length ≤ OPTION_NAME_SIZE_MAX) :
    ∃ result, rules.cfgParseOption false ignoreMissingIndex
        (rules.cfgParseOptionKeyIdxName option keyIdx) = .ok result ∧
      result.found = true ∧ result.id = id ∧ result.keyIdx = keyIdx ∧
      result.negate = false ∧ result.reset = false := by
  have hmem := mem_of_getElem? hoption
  have hname : option.name ∈ rules.names := mem_append_left _ (mem_map_of_mem hmem)
  have hzero := hplain.zero _ hname
  cases hgroup : option.group with
  | none =>
    have hidxName : rules.cfgParseOptionKeyIdxName option keyIdx = option.name := by
      unfold cfgParseOptionKeyIdxName
      rw [hgroup]
    have hinside : KeyInside option.name := by
      unfold KeyInside
      rw [hplain.noPrefix _ hname, drop_zero]
      intro base digits rest hform
      -- a plain name has no digits to take for a key
      obtain ⟨_, _, _, _, hform'⟩ := hplain.dashForm hname (by rw [hform.eq]; simp)
      exact absurd (hform.toDashForm.unique hform').2 hform.digits_ne
    rw [hidxName] at hc ⊢
    rw [hplain.resolves ignoreMissingIndex hc hzero hinside]
    exact ⟨by simp, nofun, nofun, option.name, .inl ⟨rfl, hnone hgroup,
      .option option hoption rfl nofun fun _ => .inl hgroup⟩⟩
  | some groupId =>
    obtain ⟨hdash, rest, hrest⟩ := hplain.group _ hmem groupId hgroup
    have hfits' := hfits groupId hgroup
    have hidxName : rules.cfgParseOptionKeyIdxName option keyIdx
        = rules.group.getD groupId [] ++ Nat.toDigits 10 (keyIdx + 1)
          ++ option.name.drop (rules.group.getD groupId []).length := by
      unfold cfgParseOptionKeyIdxName
      rw [hgroup]
    generalize rules.group.getD groupId [] = group at *
    have hsplit : option.name = group ++ '-' :: rest := by
      rw [← hrest, append_assoc]
      rfl
    have hkeyed : rules.cfgParseOptionKeyIdxName option keyIdx
        = nameKeyed option.name (Nat.toDigits 10 (keyIdx + 1)) := by
      rw [hidxName, hsplit, drop_left, nameKeyed_append hdash]
    rw [hkeyed] at hc hfits' ⊢
    have hdecimal := decimalKey_toDigits hkeyIdx
    have hmemDash : '-' ∈ option.name := by rw [hsplit]; simp
    obtain ⟨base, rest', hbase, hform⟩ := hplain.keyForm hname hmemDash hdecimal
    have hgroupEq : base = group := by
      have hfront := takeWhile_dash hdash rest
      rw [← hsplit, hbase, takeWhile_dash hform.dash] at hfront
      exact hfront
    have hzeroKeyed : '\x00' ∉ nameKeyed option.name (Nat.toDigits 10 (keyIdx + 1)) := by
      rw [hbase] at hzero
      rw [hform.eq]
      simp only [mem_append, mem_cons, not_or] at hzero ⊢
      exact ⟨⟨hzero.1, not_mem_of_digit hform.digit (by decide)⟩, hzero.2⟩
    have hinside : KeyInside (nameKeyed option.name (Nat.toDigits 10 (keyIdx + 1))) := by
      unfold KeyInside
      rw [optionPrefix_keyForm hform, drop_zero]
      intro base' digits' rest'' hform'
      obtain ⟨rfl, rfl⟩ := hform'.toDashForm.unique hform.toDashForm
      rw [hdecimal.value, hgroupEq]
      exact ⟨by omega, hfits'⟩
    rw [hplain.resolves ignoreMissingIndex hc hzeroKeyed hinside]
    exact ⟨by simp, nofun, nofun, option.name, .inr ⟨_, rfl, hmemDash, hdecimal,
      .option option hoption rfl (fun _ => by rw [hgroup]; nofun) nofun⟩⟩

/-- **Option name resolution.** In tables of plain names, a candidate whose
key is read as it is written is found exactly with the options and key indexes
that it says; and a name that is made of an option and a key index is found
with these. -/
theorem cfgParseOption_resolves (hplain : rules.Plain) :
    (∀ ignoreMissingIndex c, c.length ≤ OPTION_NAME_SIZE_MAX → '\x00' ∉ c → KeyInside c →
      ∀ id keyIdx negate reset,
        (∃ result, rules.cfgParseOption false ignoreMissingIndex c = .ok result ∧
          result.found = true ∧ result.id = id ∧ result.keyIdx = keyIdx ∧
          result.negate = negate ∧ result.reset = reset) ↔
        rules.Reading ignoreMissingIndex c id keyIdx negate reset) ∧
    ∀ ignoreMissingIndex id option, rules.option[id]? = some option →
      ∀ keyIdx < 256, (option.group = none → keyIdx = 0) →
        (rules.cfgParseOptionKeyIdxName option keyIdx).length ≤ OPTION_NAME_SIZE_MAX →
        (∀ groupId ∈ option.group, (rules.group.getD groupId []).length
          + (rules.cfgParseOptionKeyIdxName option keyIdx).length ≤ OPTION_NAME_SIZE_MAX) →
        ∃ result, rules.cfgParseOption false ignoreMissingIndex
            (rules.cfgParseOptionKeyIdxName option keyIdx) = .ok result ∧
          result.found = true ∧ result.id = id ∧ result.keyIdx = keyIdx ∧
          result.negate = false ∧ result.reset = false :=
  ⟨fun ignoreMissingIndex _ hc hzero hinside id keyIdx negate reset =>
    hplain.resolves ignoreMissingIndex hc hzero hinside id keyIdx negate reset,
    fun ignoreMissingIndex _ _ hoption _ hkeyIdx hnone hc hfits =>
      hplain.resolves_keyIdxName ignoreMissingIndex hoption hkeyIdx hnone hc hfits⟩

/-- A table with a group, an option without one and a deprecated name. -/
def sampleNames : ParseRuleNames where
  option := [⟨"compress".toList, false, true, true, false, none, false⟩,
    ⟨"pg-path".toList, false, false, true, false, some 0, false⟩,
    ⟨"stanza".toList, false, false, false, false, none, false⟩]
  deprecation := [⟨"db-path".toList, 1, true, true⟩]
  group := ["pg".toList]
  option_sorted := by decide
  deprecation_sorted := by decide
  deprecation_id := by decide
  option_group := by decide

theorem cfgParseOption_resolves_sample :
    ((∃ result, sampleNames.cfgParseOption false false "no-compress".toList = .ok result ∧
        result.found = true ∧ result.id = 0 ∧ result.keyIdx = 0 ∧
        result.negate = true ∧ result.reset = false) ↔
      sampleNames.Reading false "no-compress".toList 0 0 true false) ∧
    ∃ result, sampleNames.cfgParseOption false false "pg256-path".toList = .ok result ∧
      result.found = true ∧ result.id = 1 ∧ result.keyIdx = 255 ∧
      result.negate = false ∧ result.reset = false := by
  have hplain : sampleNames.Plain := by decide +kernel
  refine ⟨(cfgParseOption_resolves hplain).1 false _ (by decide) (by decide) ?_ _ _ _ _,
    (cfgParseOption_resolves hplain).2 false 1
      ⟨"pg-path".toList, false, false, true, false, some 0, false⟩ rfl 255 (by decide) nofun
      (by decide +kernel) (by decide +kernel)⟩
  intro base digits rest hform
  have hmem : '-' ∈ "no-compress".toList.drop (optionPrefix "no-compress".toList) := by
    rw [hform.eq]
    simp
  exact absurd hmem (by decide +kernel)

/-- The name of an option that cannot be negated, with the prefix `no-`: no
option is found. And a key of `2 ^ 32 + 1` is taken for 1. -/
theorem cfgParseOption_notNegatable :
    ((∃ option ∈ sampleNames.option, "no-stanza".toList = OPTION_PREFIX_NEGATE ++ option.name) ∧
      sampleNames.cfgParseOption false false "no-stanza".toList
        = .error (some ⟨.optionInvalidError, "option 'no-stanza' cannot be negated".toList⟩)) ∧
    (nameKeyed "pg-path".toList "4294967297".toList = "pg4294967297-path".toList ∧
      ∃ result, sampleNames.cfgParseOption false false "pg4294967297-path".toList = .ok result ∧
        result.found = true ∧ result.keyIdx = 0) := by
  refine ⟨by decide +kernel, by decide +kernel,
    ⟨true, 1, 0, false, false, false, false, false⟩, by decide +kernel, rfl, rfl⟩

end ParseRuleNames

end PgxBackup
