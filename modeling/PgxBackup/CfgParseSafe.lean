import PgxBackup.CfgParse

/-!
# The indexes of an option group

The keys in use are counted while they are marked, so that the index map has
an entry for each of them. The pg group has an entry for key 1 also when this
is not in use, which was not counted. The indexes that are removed in phase 6
are those without a value that is not the default, and all arrays of the group
lose the same ones; whether the first index was kept is asked by its position
before they were moved.
-/

namespace PgxBackup

open List

variable {n : ℕ} {V : Type} {rules : ParseRules n V} {parseOptionList : Fin n → ParseOption}

/-! ## Phase 4: the keys in use -/

def keyTotal (groupIdxMap : ℕ → Bool) : ℕ := (List.range CFG_OPTION_KEY_MAX).countP groupIdxMap

variable {groupIdxMap : ℕ → Bool} {key : ℕ} {help : Bool} {optionId : Fin n} {parsed : CfgParsed n V}

theorem countP_update (hkey : groupIdxMap key = false) (total : ℕ) :
    (range total).countP (Function.update groupIdxMap key true) =
      (range total).countP groupIdxMap + if key < total then 1 else 0 := by
  induction total with
  | zero => rfl
  | succ total ih =>
    rw [range_succ, countP_append, countP_append, ih, countP_singleton,
      countP_singleton]
    by_cases heq : total = key
    · subst heq
      rw [Function.update_self, hkey]
      simp
    · rw [Function.update_of_ne heq]
      have hlt : key < total ↔ key < total + 1 := by omega
      simp only [hlt]
      omega

theorem keyTotal_update (hkey : groupIdxMap key = false) (hlt : key < CFG_OPTION_KEY_MAX) :
    keyTotal (Function.update groupIdxMap key true) = keyTotal groupIdxMap + 1 := by
  unfold keyTotal
  rw [countP_update hkey, if_pos hlt]

/-- **Scanning the values of an option** marks the keys in use and counts them. -/
theorem cfgParseKeyScan_ok (valueList : List ParseOptionValue) (offset : ℕ) (groupIdxMap : ℕ → Bool)
    (hlength : offset + valueList.length ≤ CFG_OPTION_KEY_MAX) :
    (cfgParseKeyScan offset valueList (keyTotal groupIdxMap, groupIdxMap)).1 =
        keyTotal (cfgParseKeyScan offset valueList (keyTotal groupIdxMap, groupIdxMap)).2 ∧
      ∀ key, (cfgParseKeyScan offset valueList (keyTotal groupIdxMap, groupIdxMap)).2 key = true ↔
        groupIdxMap key = true ∨
          ∃ i value, key = offset + i ∧ valueList[i]? = some value ∧ value.used = true := by
  induction valueList generalizing offset groupIdxMap with
  | nil => exact ⟨rfl, fun key => by simp [cfgParseKeyScan]⟩
  | cons value valueList ih =>
    rw [length_cons] at hlength
    -- the keys of the list: the first one and those of the others
    have hkeys : ∀ key, (∃ i value', key = offset + i ∧ (value :: valueList)[i]? = some value' ∧
        value'.used = true) ↔ (key = offset ∧ value.used = true) ∨
        ∃ i value', key = offset + 1 + i ∧ valueList[i]? = some value' ∧ value'.used = true := by
      intro key
      constructor
      · rintro ⟨i, value', rfl, hvalue', hused⟩
        cases i with
        | zero =>
          obtain rfl : value = value' := by simpa using hvalue'
          exact Or.inl ⟨rfl, hused⟩
        | succ i => exact Or.inr ⟨i, value', by omega, by simpa using hvalue', hused⟩
      · rintro (⟨rfl, hused⟩ | ⟨i, value', rfl, hvalue', hused⟩)
        · exact ⟨0, value, rfl, rfl, hused⟩
        · exact ⟨i + 1, value', by omega, by simpa using hvalue', hused⟩
    rw [show cfgParseKeyScan offset (value :: valueList) (keyTotal groupIdxMap, groupIdxMap) =
      cfgParseKeyScan (offset + 1) valueList
        (if value.used && !groupIdxMap offset then
          (keyTotal groupIdxMap + 1, Function.update groupIdxMap offset true)
        else (keyTotal groupIdxMap, groupIdxMap)) from rfl]
    by_cases hnew : (value.used && !groupIdxMap offset) = true
    · rw [if_pos hnew]
      obtain ⟨hused, hoffset⟩ := Bool.and_eq_true_iff.mp hnew
      have hoffset : groupIdxMap offset = false := by simpa using hoffset
      rw [← keyTotal_update hoffset (by omega)]
      obtain ⟨htotal, hmap⟩ := ih (offset + 1) (Function.update groupIdxMap offset true) (by omega)
      refine ⟨htotal, fun key => ?_⟩
      rw [hkeys]
      refine (hmap key).trans ?_
      by_cases hkey : key = offset
      · simp [hkey, hused]
      · simp [hkey]
    · rw [if_neg hnew]
      obtain ⟨htotal, hmap⟩ := ih (offset + 1) groupIdxMap (by omega)
      refine ⟨htotal, fun key => ?_⟩
      rw [hkeys]
      refine (hmap key).trans ?_
      have hmarked : key = offset ∧ value.used = true → groupIdxMap key = true := by
        rintro ⟨rfl, hused⟩
        by_contra hnot
        exact hnew (by simp [hused, hnot])
      tauto

/-- **A key is in use in a group**: a valid option of the group was found with
it, and not reset. -/
def CfgKeyUsed (rules : ParseRules n V) (parseOptionList : Fin n → ParseOption)
    (groupId : ConfigOptionGroup) (optionKeyIdx : ℕ) : Prop :=
  ∃ optionId value, rules.valid optionId = true ∧ (rules.option optionId).group = some groupId ∧
    (parseOptionList optionId).indexList[optionKeyIdx]? = some value ∧ value.used = true

/-- What is known after some options were scanned. -/
structure CfgScanInv (rules : ParseRules n V) (parseOptionList : Fin n → ParseOption)
    (done : List (Fin n)) (scan : CfgGroupScan n V) : Prop where
  option : ∀ optionId, scan.config.option optionId =
    if optionId ∈ done ∧ rules.valid optionId = true then ⟨true, (rules.option optionId).group, []⟩
    else ⟨false, none, []⟩
  indexTotal : ∀ groupId, (scan.config.optionGroup groupId).indexTotal =
    keyTotal (scan.groupIdxMap groupId)
  indexMap : ∀ groupId, (scan.config.optionGroup groupId).indexMap = []
  valid : ∀ groupId, (scan.config.optionGroup groupId).valid = true ↔
    ∃ optionId ∈ done, rules.valid optionId = true ∧ (rules.option optionId).group = some groupId
  used : ∀ groupId optionKeyIdx, scan.groupIdxMap groupId optionKeyIdx = true ↔
    ∃ optionId value, optionId ∈ done ∧ rules.valid optionId = true ∧
      (rules.option optionId).group = some groupId ∧
      (parseOptionList optionId).indexList[optionKeyIdx]? = some value ∧ value.used = true

variable {done : List (Fin n)}

/-- **One option is scanned.** -/
theorem CfgScanInv.step {scan scan' : CfgGroupScan n V} {optionId : Fin n}
    (h : CfgScanInv rules parseOptionList done scan)
    (hscan : cfgParseOptionScan rules parseOptionList scan optionId = .ok scan') :
    CfgScanInv rules parseOptionList (done ++ [optionId]) scan' := by
  unfold cfgParseOptionScan at hscan
  cases hvalid : rules.valid optionId with
  | false =>
    rw [hvalid, if_neg (by simp)] at hscan
    split at hscan
    · cases hscan
    cases hscan
    have hsame : ∀ id, id ∈ done ++ [optionId] ∧ rules.valid id = true ↔
        id ∈ done ∧ rules.valid id = true := by
      intro id
      rw [mem_append, mem_singleton, or_and_right, or_iff_left]
      rintro ⟨rfl, hid⟩
      rw [hvalid] at hid
      cases hid
    refine ⟨fun id => ?_, h.indexTotal, h.indexMap, fun groupId => (h.valid groupId).trans ?_,
      fun groupId key => (h.used groupId key).trans ?_⟩
    · simp only [hsame]
      exact h.option id
    · simp only [← and_assoc, hsame]
    · simp only [← and_assoc, hsame]
  | true =>
    rw [hvalid, if_pos rfl] at hscan
    have hoption : ∀ id, Function.update scan.config.option optionId
        ⟨true, (rules.option optionId).group, []⟩ id =
        if id ∈ done ++ [optionId] ∧ rules.valid id = true then
          ⟨true, (rules.option id).group, []⟩ else ⟨false, none, []⟩ := by
      intro id
      by_cases hid : id = optionId
      · subst hid
        rw [Function.update_self, if_pos ⟨by simp, hvalid⟩]
      · rw [Function.update_of_ne hid, h.option id]
        simp [hid]
    dsimp only at hscan
    cases hgroup : (rules.option optionId).group with
    | none =>
      rw [hgroup] at hscan hoption
      cases hscan
      refine ⟨hoption, h.indexTotal, h.indexMap, fun groupId => (h.valid groupId).trans ?_,
        fun groupId key => (h.used groupId key).trans ?_⟩
      · refine exists_congr (fun id => ?_)
        rw [mem_append, mem_singleton]
        refine ⟨fun hid => ⟨Or.inl hid.1, hid.2⟩, ?_⟩
        rintro ⟨hid | rfl, hv, hg⟩
        · exact ⟨hid, hv, hg⟩
        · rw [hgroup] at hg
          cases hg
      · refine exists_congr (fun id => exists_congr (fun value => ?_))
        rw [mem_append, mem_singleton]
        refine ⟨fun hid => ⟨Or.inl hid.1, hid.2⟩, ?_⟩
        rintro ⟨hid | rfl, hv, hg, hrest⟩
        · exact ⟨hid, hv, hg, hrest⟩
        · rw [hgroup] at hg
          cases hg
    | some groupId =>
      rw [hgroup] at hscan hoption
      have hscan := Except.ok.inj hscan
      dsimp only [Config.setOption] at hscan
      rw [h.indexTotal groupId] at hscan
      obtain ⟨htotal, hmap⟩ := cfgParseKeyScan_ok (parseOptionList optionId).indexList 0
        (scan.groupIdxMap groupId) (by rw [Nat.zero_add]; exact (parseOptionList optionId).total_le)
      generalize cfgParseKeyScan 0 (parseOptionList optionId).indexList
        (keyTotal (scan.groupIdxMap groupId), scan.groupIdxMap groupId) = result at hscan htotal hmap
      subst hscan
      refine ⟨hoption, fun groupId' => ?_, fun groupId' => ?_, fun groupId' => ?_,
        fun groupId' key => ?_⟩
      · by_cases hg : groupId' = groupId
        · subst hg
          simp [Config.setGroup, htotal]
        · simp [Config.setGroup, hg, h.indexTotal]
      · by_cases hg : groupId' = groupId
        · subst hg
          simp [Config.setGroup, h.indexMap]
        · simp [Config.setGroup, hg, h.indexMap]
      · by_cases hg : groupId' = groupId
        · subst hg
          simp only [Config.setGroup, Function.update_self, true_iff]
          exact ⟨optionId, by simp, hvalid, hgroup⟩
        · simp only [Config.setGroup, Function.update_of_ne hg]
          refine (h.valid groupId').trans (exists_congr (fun id => ?_))
          rw [mem_append, mem_singleton]
          refine ⟨fun hid => ⟨Or.inl hid.1, hid.2⟩, ?_⟩
          rintro ⟨hid | rfl, hv, hgroup'⟩
          · exact ⟨hid, hv, hgroup'⟩
          · exact absurd (Option.some.inj (hgroup'.symm.trans hgroup)) hg
      · by_cases hg : groupId' = groupId
        · subst hg
          simp only [Function.update_self]
          refine (hmap key).trans ?_
          rw [h.used]
          constructor
          · rintro (⟨id, value, hid, hrest⟩ | ⟨i, value, rfl, hvalue, hused⟩)
            · exact ⟨id, value, mem_append_left _ hid, hrest⟩
            · rw [Nat.zero_add]
              exact ⟨optionId, value, by simp, hvalid, hgroup, hvalue, hused⟩
          · rintro ⟨id, value, hid, hrest⟩
            rcases mem_append.mp hid with hid | hid
            · exact Or.inl ⟨id, value, hid, hrest⟩
            · obtain rfl := mem_singleton.mp hid
              exact Or.inr ⟨key, value, (Nat.zero_add key).symm, hrest.2.2⟩
        · simp only [Function.update_of_ne hg]
          refine (h.used groupId' key).trans (exists_congr (fun id => exists_congr (fun value => ?_)))
          rw [mem_append, mem_singleton]
          refine ⟨fun hid => ⟨Or.inl hid.1, hid.2⟩, ?_⟩
          rintro ⟨hid | rfl, hv, hgroup', hrest⟩
          · exact ⟨hid, hv, hgroup', hrest⟩
          · exact absurd (Option.some.inj (hgroup'.symm.trans hgroup)) hg

theorem cfgScanInv_foldlM (optionIdList : List (Fin n)) :
    ∀ {done : List (Fin n)} {scan scan' : CfgGroupScan n V},
    CfgScanInv rules parseOptionList done scan →
    optionIdList.foldlM (cfgParseOptionScan rules parseOptionList) scan = .ok scan' →
    CfgScanInv rules parseOptionList (done ++ optionIdList) scan' := by
  induction optionIdList with
  | nil =>
    intro done scan scan' h hfold
    cases hfold
    rwa [append_nil]
  | cons optionId optionIdList ih =>
    intro done scan scan' h hfold
    rw [foldlM_cons] at hfold
    obtain ⟨scan₁, hscan, hfold⟩ := ok_of_bind hfold
    have hrest := ih (h.step hscan) hfold
    rwa [append_assoc, singleton_append] at hrest

/-- **All options are scanned.** -/
theorem cfgScanInv_all {scan : CfgGroupScan n V}
    (hfold : (finRange n).foldlM (cfgParseOptionScan rules parseOptionList)
      ⟨configNew help, fun _ _ => false⟩ = .ok scan) :
    CfgScanInv rules parseOptionList (finRange n) scan := by
  have hnew : CfgScanInv rules parseOptionList [] ⟨configNew help, fun _ _ => false⟩ :=
    ⟨fun _ => by simp [configNew], fun _ => by simp [configNew, keyTotal], fun _ => rfl,
      fun _ => by simp [configNew], fun _ _ => by simp⟩
  exact cfgScanInv_foldlM (finRange n) hnew hfold

/-! ## Phase 4: the index map -/

theorem foldl_set_zipIdx (list : List ℕ) (start : ℕ) (memory : List ℕ)
    (hlength : memory.length = start + list.length) :
    ((list.zipIdx start).map (fun (item, position) => (position, item))).foldl
      (fun memory write => memory.set write.1 write.2) memory = memory.take start ++ list := by
  induction list generalizing start memory with
  | nil =>
    rw [length_nil, Nat.add_zero] at hlength
    rw [← hlength, take_length, append_nil]
    rfl
  | cons item list ih =>
    rw [length_cons] at hlength
    rw [zipIdx_cons, map_cons, foldl_cons, ih _ _ (by rw [length_set]; omega)]
    have hlt : start < memory.length := by omega
    rw [take_add_one, take_set_of_le le_rfl, getElem?_set_self hlt, append_assoc]
    rfl

/-- The keys in use, in order. -/
def keyList (groupIdxMap : ℕ → Bool) : List ℕ :=
  (range CFG_OPTION_KEY_MAX).filter (fun optionKeyIdx => groupIdxMap optionKeyIdx)

theorem length_keyList (groupIdxMap : ℕ → Bool) :
    (keyList groupIdxMap).length = keyTotal groupIdxMap :=
  (countP_eq_length_filter).symm

theorem range_keyMax : List.range CFG_OPTION_KEY_MAX = 0 :: List.range' 1 (CFG_OPTION_KEY_MAX - 1) := by
  rw [range_eq_range', show CFG_OPTION_KEY_MAX = (CFG_OPTION_KEY_MAX - 1) + 1 from rfl,
    range'_succ]
  rfl

def indexMapOf (groupIdxMap : ℕ → Bool) : List ℕ :=
  if keyTotal groupIdxMap = 0 then [0] else keyList groupIdxMap

theorem length_indexMapOf_pos (groupIdxMap : ℕ → Bool) : 0 < (indexMapOf groupIdxMap).length := by
  unfold indexMapOf
  split
  next => exact Nat.one_pos
  next h => rw [length_keyList]; exact Nat.pos_of_ne_zero h

theorem pairwise_indexMapOf (groupIdxMap : ℕ → Bool) :
    (indexMapOf groupIdxMap).Pairwise (· < ·) := by
  unfold indexMapOf
  split
  next => exact pairwise_singleton _ _
  next => exact pairwise_lt_range.filter _

theorem mem_indexMapOf (hkey : groupIdxMap key = true)
    (hlt : key < CFG_OPTION_KEY_MAX) : key ∈ indexMapOf groupIdxMap := by
  have hmem : key ∈ keyList groupIdxMap := mem_filter.mpr ⟨mem_range.mpr hlt, hkey⟩
  unfold indexMapOf
  rw [if_neg]
  · exact hmem
  · rw [← length_keyList]
    exact Nat.ne_of_gt (length_pos_of_mem hmem)

/-- **The index map of a group** where key 1 is in use when it is required: all
writes are within the allocation. -/
theorem cfgParseIndexMap_ok {groupId : ConfigOptionGroup}
    (hfirst : groupId = .pg → keyTotal groupIdxMap ≠ 0 → groupIdxMap 0 = true) :
    let map := cfgParseIndexMap groupId (keyTotal groupIdxMap) groupIdxMap
    (∀ write ∈ map.writes, write.1 < map.allocated) ∧ map.indexMap = indexMapOf groupIdxMap ∧
      map.indexTotal = (indexMapOf groupIdxMap).length := by
  unfold cfgParseIndexMap indexMapOf
  by_cases hzero : keyTotal groupIdxMap = 0
  · rw [if_pos hzero, if_pos hzero]
    exact ⟨by simp, rfl, rfl⟩
  · rw [if_neg hzero, if_neg hzero]
    -- with key 1 in use, what is written is the same for both groups
    have hwrites : (if groupId = .pg then [((0 : ℕ), (0 : ℕ))] else []) ++
        (((range' (if groupId = .pg then 1 else 0)
          (CFG_OPTION_KEY_MAX - if groupId = .pg then 1 else 0)).filter
            (fun optionKeyIdx => groupIdxMap optionKeyIdx)).zipIdx (if groupId = .pg then 1 else 0)).map
              (fun (optionKeyIdx, optionIdx) => (optionIdx, optionKeyIdx)) =
        ((keyList groupIdxMap).zipIdx 0).map (fun (item, position) => (position, item)) := by
      by_cases hpg : groupId = .pg
      · simp only [hpg, if_true]
        unfold keyList
        rw [range_keyMax, filter_cons_of_pos (by simpa using hfirst hpg hzero), zipIdx_cons]
        rfl
      · simp only [hpg, if_false, nil_append, Nat.sub_zero]
        unfold keyList
        rw [range_eq_range']
    unfold CfgIndexMap.indexMap
    dsimp only
    rw [hwrites]
    refine ⟨?_, ?_, (length_keyList _).symm⟩
    · intro write hmem
      obtain ⟨⟨item, position⟩, hitem, rfl⟩ := mem_map.mp hmem
      have hlt := snd_lt_add_of_mem_zipIdx hitem
      rw [length_keyList] at hlt
      simpa using hlt
    · rw [foldl_set_zipIdx _ _ _ (by rw [length_replicate, length_keyList, Nat.zero_add])]
      rfl

/-- **Without key 1, the last key of the pg group is written behind the
allocation.** -/
theorem cfgParseIndexMap_overflow (htotal : keyTotal groupIdxMap ≠ 0)
    (hfirst : groupIdxMap 0 = false) :
    let map := cfgParseIndexMap .pg (keyTotal groupIdxMap) groupIdxMap
    ∃ write ∈ map.writes, map.allocated ≤ write.1 := by
  unfold cfgParseIndexMap
  rw [if_neg htotal]
  -- all keys in use are above key 1
  have hkeys : (range' 1 (CFG_OPTION_KEY_MAX - 1)).filter
      (fun optionKeyIdx => groupIdxMap optionKeyIdx) = keyList groupIdxMap := by
    unfold keyList
    rw [range_keyMax, filter_cons_of_neg (by simp [hfirst])]
  simp only [if_true]
  rw [hkeys]
  have hlast : keyTotal groupIdxMap - 1 < (keyList groupIdxMap).length := by
    rw [length_keyList]
    omega
  refine ⟨(1 + (keyTotal groupIdxMap - 1), (keyList groupIdxMap)[keyTotal groupIdxMap - 1]), ?_, ?_⟩
  · refine mem_append_right _ (mem_map.mpr ⟨((keyList groupIdxMap)[keyTotal groupIdxMap - 1],
      1 + (keyTotal groupIdxMap - 1)), ?_, rfl⟩)
    rw [mem_zipIdx_iff_le_and_getElem?_sub]
    refine ⟨by omega, ?_⟩
    rw [Nat.add_sub_cancel_left]
    exact getElem?_eq_getElem hlast
  · dsimp only
    omega

/-! ## Phase 5: the indexes that are kept -/

/-- **An index of a group has a value that is not the default.** -/
def CfgKept (config : Config n V) (groupId : ConfigOptionGroup) (optionListIdx : ℕ) : Prop :=
  ∃ optionId value, (config.option optionId).group = some groupId ∧
    (config.option optionId).index[optionListIdx]? = some value ∧ value.source ≠ .default

variable {optionListIdx : ℕ}

/-- A value has its source only when the dependency of the option is resolved. -/
theorem cfgParseOptionValue_source {config : Config n V}
    {optionKeyIdx : ℕ} {parsed : ParseOptionValue} {value : ConfigOptionValue V}
    (h : cfgParseOptionValue rules config optionId optionListIdx optionKeyIdx parsed = .ok value)
    (hsource : value.source ≠ .default) : (rules.depend config optionId optionListIdx).valid = true := by
  by_contra hnot
  have hnot : (rules.depend config optionId optionListIdx).valid = false := by simpa using hnot
  unfold cfgParseOptionValue at h
  dsimp only at h
  rw [hnot] at h
  split at h
  · cases h
  · rw [if_neg (by simp)] at h
    split at h
    · exact hsource (by rw [← Except.ok.inj h])
    · exact hsource (by rw [← Except.ok.inj h])

/-- What is known after some options were resolved. -/
structure CfgResolveInv (rules : ParseRules n V) (mapped : Config n V) (done : List (Fin n))
    (resolve : CfgResolve n V) : Prop where
  optionGroup : resolve.config.optionGroup = mapped.optionGroup
  valid : ∀ optionId, (resolve.config.option optionId).valid = rules.valid optionId
  group : ∀ optionId, (resolve.config.option optionId).group =
    if rules.valid optionId = true then (rules.option optionId).group else none
  notDone : ∀ optionId, optionId ∉ done → (resolve.config.option optionId).index = []
  length : ∀ optionId ∈ done, rules.valid optionId = true →
    (resolve.config.option optionId).index.length =
      cfgParseIndexTotal mapped (rules.option optionId).group
  keep : ∀ groupId optionListIdx, resolve.optionGroupIndexKeep groupId optionListIdx = true ↔
    CfgKept resolve.config groupId optionListIdx

/-- Setting a value of an index that had its default. -/
theorem cfgKept_setOption {config : Config n V}
    {old : ConfigOptionValue V} (value : ConfigOptionValue V)
    (hold : (config.option optionId).index[optionListIdx]? = some old)
    (hdefault : old.source = .default) (groupId : ConfigOptionGroup) (i : ℕ) :
    CfgKept (config.setOption optionId { config.option optionId with
        index := (config.option optionId).index.set optionListIdx value }) groupId i ↔
      CfgKept config groupId i ∨
        ((config.option optionId).group = some groupId ∧ i = optionListIdx ∧
          value.source ≠ .default) := by
  have hlt := (List.getElem?_eq_some_iff.mp hold).1
  unfold CfgKept Config.setOption
  dsimp only
  constructor
  · rintro ⟨id, value', hgroup, hvalue', hsource⟩
    by_cases hid : id = optionId
    · subst hid
      rw [Function.update_self] at hgroup hvalue'
      by_cases hi : i = optionListIdx
      · subst hi
        rw [getElem?_set_self hlt] at hvalue'
        cases hvalue'
        exact Or.inr ⟨hgroup, rfl, hsource⟩
      · rw [getElem?_set_ne (Ne.symm hi)] at hvalue'
        exact Or.inl ⟨id, value', hgroup, hvalue', hsource⟩
    · rw [Function.update_of_ne hid] at hgroup hvalue'
      exact Or.inl ⟨id, value', hgroup, hvalue', hsource⟩
  · rintro (⟨id, value', hgroup, hvalue', hsource⟩ | ⟨hgroup, rfl, hsource⟩)
    · by_cases hid : id = optionId
      · subst hid
        have hi : i ≠ optionListIdx := by
          rintro rfl
          cases hold.symm.trans hvalue'
          exact hsource hdefault
        refine ⟨id, value', ?_, ?_, hsource⟩
        · rw [Function.update_self]
          exact hgroup
        · rw [Function.update_self, getElem?_set_ne (Ne.symm hi)]
          exact hvalue'
      · refine ⟨id, value', ?_, ?_, hsource⟩
        · rw [Function.update_of_ne hid]
          exact hgroup
        · rw [Function.update_of_ne hid]
          exact hvalue'
    · refine ⟨optionId, value, ?_, ?_, hsource⟩
      · rw [Function.update_self]
        exact hgroup
      · rw [Function.update_self, getElem?_set_self hlt]

/-- What is known while the indexes of an option are resolved: those from
`optionListIdx` on have their default. -/
structure CfgIndexInv (rules : ParseRules n V) (mapped : Config n V) (done : List (Fin n))
    (optionId : Fin n) (optionListIdx : ℕ) (resolve : CfgResolve n V) : Prop
    extends CfgResolveInv rules mapped (done ++ [optionId]) resolve where
  rest : ∀ i value, optionListIdx ≤ i →
    (resolve.config.option optionId).index[i]? = some value → value.source = .default

variable {mapped : Config n V} {resolve' : CfgResolve n V}

/-- **One index is resolved.** -/
theorem CfgIndexInv.step {optionId : Fin n}
    {resolve : CfgResolve n V} (hvalid : rules.valid optionId = true)
    (hlt : optionListIdx < cfgParseIndexTotal mapped (rules.option optionId).group)
    (h : CfgIndexInv rules mapped done optionId optionListIdx resolve)
    (hstep : cfgParseOptionIndex rules parseOptionList optionId resolve optionListIdx = .ok resolve') :
    CfgIndexInv rules mapped done optionId (optionListIdx + 1) resolve' := by
  unfold cfgParseOptionIndex at hstep
  obtain ⟨value, hvalue, hstep⟩ := ok_of_bind hstep
  have hstep := Except.ok.inj hstep
  have hlength := h.length optionId (by simp) hvalid
  have hgroup := h.group optionId
  rw [if_pos hvalid] at hgroup
  have hold : (resolve.config.option optionId).index[optionListIdx]? =
      some (resolve.config.option optionId).index[optionListIdx] :=
    getElem?_eq_getElem (by rw [hlength]; exact hlt)
  have hkept := cfgKept_setOption value hold (h.rest _ _ le_rfl hold)
  have hdepend := fun hsource => cfgParseOptionValue_source hvalue hsource
  subst hstep
  refine ⟨⟨h.optionGroup, fun id => ?_, fun id => ?_, fun id hid => ?_, fun id hid hv => ?_,
    fun groupId i => ?_⟩, fun i value' hi hvalue' => ?_⟩
  · by_cases hid : id = optionId
    · subst hid
      rw [Config.setOption_self]
      exact h.valid id
    · rw [Config.setOption_of_ne _ hid]
      exact h.valid id
  · by_cases hid : id = optionId
    · subst hid
      rw [Config.setOption_self]
      exact h.group id
    · rw [Config.setOption_of_ne _ hid]
      exact h.group id
  · have hne : id ≠ optionId := by
      rintro rfl
      exact hid (by simp)
    rw [Config.setOption_of_ne _ hne]
    exact h.notDone id hid
  · by_cases hid' : id = optionId
    · subst hid'
      rw [Config.setOption_self, length_set]
      exact h.length id hid hv
    · rw [Config.setOption_of_ne _ hid']
      exact h.length id hid hv
  · rw [hkept, ← h.keep, hgroup]
    cases hrule : (rules.option optionId).group with
    | none => simp
    | some groupId' =>
      dsimp only
      have hsame : (rules.depend resolve.config optionId optionListIdx).valid &&
          value.source ≠ .default ↔ value.source ≠ .default := by
        rw [Bool.and_eq_true, decide_eq_true_eq]
        exact ⟨fun hand => hand.2, fun hsource => ⟨hdepend hsource, hsource⟩⟩
      by_cases hsource : value.source ≠ .default
      · rw [if_pos (hsame.mpr hsource)]
        by_cases hg : groupId = groupId'
        · subst hg
          rw [Function.update_self]
          by_cases hi : i = optionListIdx
          · simp [hi, hsource]
          · simp [hi]
        · rw [Function.update_of_ne hg]
          simp [Ne.symm hg]
      · rw [if_neg (fun hand => hsource (hsame.mp hand))]
        simp [hsource]
  · rw [Config.setOption_self] at hvalue'
    rw [getElem?_set_ne (by omega)] at hvalue'
    exact h.rest i value' (by omega) hvalue'

theorem cfgIndexInv_foldlM
    (hvalid : rules.valid optionId = true) (total : ℕ)
    (htotal : total ≤ cfgParseIndexTotal mapped (rules.option optionId).group)
    {resolve : CfgResolve n V} (h : CfgIndexInv rules mapped done optionId 0 resolve)
    (hfold : (range total).foldlM (cfgParseOptionIndex rules parseOptionList optionId) resolve =
      .ok resolve') : CfgIndexInv rules mapped done optionId total resolve' := by
  induction total generalizing resolve' with
  | zero =>
    cases hfold
    exact h
  | succ total ih =>
    rw [range_succ, foldlM_append] at hfold
    obtain ⟨resolve₁, hstart, hfold⟩ := ok_of_bind hfold
    change (cfgParseOptionIndex rules parseOptionList optionId resolve₁ total >>= pure) = _ at hfold
    have hlast : cfgParseOptionIndex rules parseOptionList optionId resolve₁ total = .ok resolve' := by
      rwa [bind_pure] at hfold
    exact (ih (by omega) hstart).step hvalid (by omega) hlast

/-- **One option is resolved.** -/
theorem CfgResolveInv.step {optionId : Fin n}
    (hnew : optionId ∉ done) {resolve : CfgResolve n V}
    (h : CfgResolveInv rules mapped done resolve)
    (hstep : cfgParseOptionResolve rules parseOptionList resolve optionId = .ok resolve') :
    CfgResolveInv rules mapped (done ++ [optionId]) resolve' := by
  unfold cfgParseOptionResolve at hstep
  dsimp only at hstep
  rw [h.valid optionId] at hstep
  cases hvalid : rules.valid optionId with
  | false =>
    rw [hvalid, if_neg (by simp)] at hstep
    cases hstep
    refine ⟨h.optionGroup, h.valid, h.group, fun id hid => h.notDone id (fun hmem => hid (by simp [hmem])),
      fun id hid hv => ?_, h.keep⟩
    rcases mem_append.mp hid with hid | hid
    · exact h.length id hid hv
    · obtain rfl := mem_singleton.mp hid
      rw [hvalid] at hv
      cases hv
  | true =>
    rw [hvalid, if_pos rfl] at hstep
    have htotal : cfgParseIndexTotal resolve.config (rules.option optionId).group =
        cfgParseIndexTotal mapped (rules.option optionId).group := by
      unfold cfgParseIndexTotal
      rw [h.optionGroup]
    rw [htotal] at hstep
    refine (cfgIndexInv_foldlM hvalid _ le_rfl ?_ hstep).toCfgResolveInv
    -- the indexes of the option have their defaults
    refine ⟨⟨h.optionGroup, fun id => ?_, fun id => ?_, fun id hid => ?_, fun id hid hv => ?_,
      fun groupId i => ?_⟩, fun i value _ hvalue => ?_⟩
    · by_cases hid : id = optionId
      · subst hid
        rw [Config.setOption_self]
        exact hvalid.symm
      · rw [Config.setOption_of_ne _ hid]
        exact h.valid id
    · by_cases hid : id = optionId
      · subst hid
        rw [Config.setOption_self]
        exact h.group id
      · rw [Config.setOption_of_ne _ hid]
        exact h.group id
    · have hne : id ≠ optionId := by
        rintro rfl
        exact hid (by simp)
      rw [Config.setOption_of_ne _ hne]
      exact h.notDone id (fun hmem => hid (by simp [hmem]))
    · by_cases hid' : id = optionId
      · subst hid'
        rw [Config.setOption_self, length_replicate]
      · rw [Config.setOption_of_ne _ hid']
        rcases mem_append.mp hid with hid | hid
        · exact h.length id hid hv
        · exact absurd (mem_singleton.mp hid) hid'
    · rw [h.keep]
      refine exists_congr (fun id => exists_congr (fun value => ?_))
      by_cases hid : id = optionId
      · subst hid
        rw [Config.setOption_self, h.notDone id hnew]
        constructor
        · rintro ⟨-, hvalue, -⟩
          cases hvalue
        · rintro ⟨-, hvalue, hsource⟩
          have hvalue := eq_of_mem_replicate (mem_of_getElem? hvalue)
          rw [hvalue] at hsource
          exact absurd rfl hsource
      · rw [Config.setOption_of_ne _ hid]
    · rw [Config.setOption_self] at hvalue
      rw [eq_of_mem_replicate (mem_of_getElem? hvalue)]

theorem cfgResolveInv_foldlM (optionIdList : List (Fin n)) :
    ∀ {done : List (Fin n)} {resolve resolve' : CfgResolve n V}, (done ++ optionIdList).Nodup →
    CfgResolveInv rules mapped done resolve →
    optionIdList.foldlM (cfgParseOptionResolve rules parseOptionList) resolve = .ok resolve' →
    CfgResolveInv rules mapped (done ++ optionIdList) resolve' := by
  induction optionIdList with
  | nil =>
    intro done resolve resolve' _ h hfold
    cases hfold
    rwa [append_nil]
  | cons optionId optionIdList ih =>
    intro done resolve resolve' hnodup h hfold
    rw [foldlM_cons] at hfold
    obtain ⟨resolve₁, hstep, hfold⟩ := ok_of_bind hfold
    have hnew : optionId ∉ done := by
      intro hmem
      exact (nodup_append.mp hnodup).2.2 optionId hmem optionId mem_cons_self rfl
    have hrest := ih (by rwa [append_assoc, singleton_append]) (h.step hnew hstep) hfold
    rwa [append_assoc, singleton_append] at hrest

/-! ## Phase 6: the indexes that are removed -/

/-- **What is left of a group**: the positions that are left in the index map and
in the arrays of all options of the group. Nothing else has changed. -/
structure CfgLeft (before : Config n V) (groupId : ConfigOptionGroup) (positions : List ℕ)
    (config : Config n V) : Prop where
  indexTotal : (config.optionGroup groupId).indexTotal = positions.length
  le : positions.length ≤ (before.optionGroup groupId).indexMap.length
  mapLength : (config.optionGroup groupId).indexMap.length =
    (before.optionGroup groupId).indexMap.length
  indexMap : Compact.Holds (before.optionGroup groupId).indexMap (config.optionGroup groupId).indexMap
    positions
  group : ∀ optionId, (config.option optionId).group = (before.option optionId).group
  length : ∀ optionId, (before.option optionId).group = some groupId →
    (config.option optionId).index.length = (before.optionGroup groupId).indexMap.length
  index : ∀ optionId, (before.option optionId).group = some groupId →
    Compact.Holds (before.option optionId).index (config.option optionId).index positions
  otherGroup : ∀ groupId', groupId' ≠ groupId → config.optionGroup groupId' = before.optionGroup groupId'
  otherOption : ∀ optionId, (before.option optionId).group ≠ some groupId →
    config.option optionId = before.option optionId

variable {before : Config n V}

/-- **One index is removed.** -/
theorem CfgLeft.remove {config : Config n V} {groupId : ConfigOptionGroup} {positions : List ℕ}
    {keyIdx : ℕ} (hlt : keyIdx < positions.length) (h : CfgLeft before groupId positions config) :
    CfgLeft before groupId (positions.eraseIdx keyIdx) (cfgParseIndexRemove config groupId keyIdx) := by
  have hle := h.le
  have herase : (positions.eraseIdx keyIdx).length = positions.length - 1 :=
    length_eraseIdx_of_lt hlt
  unfold cfgParseIndexRemove
  dsimp only
  rw [h.indexTotal]
  by_cases hlast : keyIdx < positions.length - 1
  · rw [if_pos hlast]
    have hmove : keyIdx + 1 + (positions.length - keyIdx - 1) ≤
        (before.optionGroup groupId).indexMap.length := by omega
    refine ⟨?_, by omega, ?_, ?_, fun id => ?_, fun id hid => ?_, fun id hid => ?_, fun g hg => ?_,
      fun id hid => ?_⟩
    · rw [Config.setGroup_self]
      exact herase.symm
    · rw [Config.setGroup_self]
      dsimp only
      rw [Function.update_self]
      rw [Compact.length_memmove (Nat.le_succ _) (by rw [h.mapLength]; exact hmove), h.mapLength]
    · rw [Config.setGroup_self]
      dsimp only
      rw [Function.update_self]
      exact h.indexMap.memmove (by rw [h.mapLength]; exact hle) hlt
    · show (if (config.option id).group = some groupId then _ else config.option id).group = _
      split
      · exact h.group id
      · exact h.group id
    · show (if (config.option id).group = some groupId then _ else config.option id).index.length = _
      rw [if_pos ((h.group id).trans hid)]
      rw [Compact.length_memmove (Nat.le_succ _) (by rw [h.length id hid]; exact hmove), h.length id hid]
    · show Compact.Holds _ (if (config.option id).group = some groupId then _ else config.option id).index _
      rw [if_pos ((h.group id).trans hid)]
      exact (h.index id hid).memmove (by rw [h.length id hid]; exact hle) hlt
    · rw [Config.setGroup_of_ne _ hg]
      dsimp only
      rw [Function.update_of_ne hg]
      exact h.otherGroup g hg
    · show (if (config.option id).group = some groupId then _ else config.option id) = _
      rw [if_neg (fun hgroup => hid ((h.group id).symm.trans hgroup))]
      exact h.otherOption id hid
  · rw [if_neg hlast]
    have hend : keyIdx + 1 = positions.length := by omega
    refine ⟨?_, by omega, ?_, ?_, h.group, h.length, fun id hid => (h.index id hid).last hend,
      fun g hg => ?_, h.otherOption⟩
    · rw [Config.setGroup_self]
      exact herase.symm
    · rw [Config.setGroup_self]
      exact h.mapLength
    · rw [Config.setGroup_self]
      exact h.indexMap.last hend
    · rw [Config.setGroup_of_ne _ hg]
      exact h.otherGroup g hg

/-- **The indexes are iterated** from the last one to the first. -/
theorem CfgLeft.loop {groupId : ConfigOptionGroup} (keep : ℕ → Bool)
    (keyTotal : ℕ) {positions : List ℕ} {config : Config n V} (hle : keyTotal ≤ positions.length)
    (h : CfgLeft before groupId positions config) :
    CfgLeft before groupId (Compact.left keep keyTotal positions)
      (cfgParseIndexLoop keep groupId keyTotal config) := by
  induction keyTotal generalizing positions config with
  | zero => exact h
  | succ keyIdx ih =>
    unfold cfgParseIndexLoop Compact.left
    rw [h.indexTotal]
    split
    next => exact h
    next =>
      cases hkeep : keep keyIdx with
      | true =>
        rw [if_pos rfl, if_pos rfl]
        exact ih (by omega) h
      | false =>
        rw [if_neg (by simp), if_neg (by simp)]
        exact ih (by rw [length_eraseIdx_of_lt hle]; omega) (h.remove hle)

/-- The group before phase 6. -/
structure CfgGroupWhole (before : Config n V) (groupId : ConfigOptionGroup) : Prop where
  indexTotal : (before.optionGroup groupId).indexTotal = (before.optionGroup groupId).indexMap.length
  length : ∀ optionId, (before.option optionId).group = some groupId →
    (before.option optionId).index.length = (before.optionGroup groupId).indexMap.length

theorem CfgGroupWhole.left {groupId : ConfigOptionGroup} (h : CfgGroupWhole before groupId) :
    CfgLeft before groupId (range (before.optionGroup groupId).indexMap.length) before := by
  refine ⟨?_, ?_, rfl, Compact.holds_range _, fun _ => rfl, h.length, fun id hid => ?_,
    fun _ _ => rfl, fun _ _ => rfl⟩
  · rw [length_range, h.indexTotal]
  · rw [length_range]
  · have hrange := Compact.holds_range (before.option id).index
    rwa [h.length id hid] at hrange

/-- **No value is lost and none is under another key**: after phase 6 a group has
the values that are not the default, under the keys they had before. -/
structure CfgIndexesKept (before after : Config n V) (groupId : ConfigOptionGroup) : Prop where
  total : 1 ≤ (after.optionGroup groupId).indexTotal
  sorted : ((after.optionGroup groupId).indexMap.take (after.optionGroup groupId).indexTotal).Pairwise
    (· < ·)
  value : ∀ optionId, (before.option optionId).group = some groupId → ∀ optionKeyIdx value,
    value.source ≠ .default →
    ((∃ i : ℕ, (before.optionGroup groupId).indexMap[i]? = some optionKeyIdx ∧
        (before.option optionId).index[i]? = some value) ↔
      ∃ j < (after.optionGroup groupId).indexTotal,
        (after.optionGroup groupId).indexMap[j]? = some optionKeyIdx ∧
          (after.option optionId).index[j]? = some value)

/-- If only one index of the group has values that are not the default, it is the
first one. -/
def CfgKeptFirst (config : Config n V) (groupId : ConfigOptionGroup) : Prop :=
  ∀ i, CfgKept config groupId i → (∀ i', CfgKept config groupId i' → i' = i) → i = 0

section Remove

variable {before after : Config n V} {groupId : ConfigOptionGroup} {positions : List ℕ}

theorem holds_getElem? {α : Type} {original array : List α} {i position : ℕ} {item : α}
    (h : Compact.Holds original array positions) (hposition : positions[i]? = some position) :
    array[i]? = some item ↔ original[position]? = some item := by
  have hget := h.get hposition
  cases harray : array[i]? with
  | none =>
    rw [harray] at hget
    cases hget
  | some item' =>
    rw [harray] at hget
    rw [← Option.some.inj hget]

/-- **When all indexes with values are left, no value is lost.** -/
theorem CfgLeft.kept (h : CfgLeft before groupId positions after)
    (hsorted : (before.optionGroup groupId).indexMap.Pairwise (· < ·)) (hne : positions ≠ [])
    (hpositions : positions.Pairwise (· < ·)) (hkept : ∀ i, CfgKept before groupId i → i ∈ positions) :
    CfgIndexesKept before after groupId := by
  refine ⟨?_, ?_, fun id hid key value hsource => ?_⟩
  · rw [h.indexTotal]
    exact length_pos_of_ne_nil hne
  · rw [h.indexTotal]
    exact h.indexMap.pairwise hpositions hsorted
  · rw [h.indexTotal]
    constructor
    · rintro ⟨i, hkey, hvalue⟩
      obtain ⟨j, hj, rfl⟩ := getElem_of_mem (hkept i ⟨id, value, hid, hvalue, hsource⟩)
      have hposition := getElem?_eq_getElem hj
      exact ⟨j, hj, (holds_getElem? h.indexMap hposition).mpr hkey,
        (holds_getElem? (h.index id hid) hposition).mpr hvalue⟩
    · rintro ⟨j, hj, hkey, hvalue⟩
      have hposition := getElem?_eq_getElem hj
      exact ⟨_, (holds_getElem? h.indexMap hposition).mp hkey,
        (holds_getElem? (h.index id hid) hposition).mp hvalue⟩

theorem CfgGroupWhole.kept_lt (h : CfgGroupWhole before groupId) {i : ℕ}
    (hkept : CfgKept before groupId i) : i < (before.optionGroup groupId).indexMap.length := by
  obtain ⟨id, value, hgroup, hvalue, -⟩ := hkept
  rw [← h.length id hgroup]
  exact (List.getElem?_eq_some_iff.mp hvalue).1

/-- **Without values, the one index that is left gets key 1.** -/
theorem cfgIndexesKept_none (h : CfgLeft before groupId [0] after)
    (hnone : ∀ i, ¬ CfgKept before groupId i) :
    CfgIndexesKept before (after.setGroup groupId { after.optionGroup groupId with
      indexMap := (after.optionGroup groupId).indexMap.set 0 0 }) groupId := by
  have htotal : (after.optionGroup groupId).indexTotal = 1 := h.indexTotal
  refine ⟨?_, ?_, fun id hid key value hsource => ?_⟩
  · rw [Config.setGroup_self]
    exact htotal.ge
  · rw [Config.setGroup_self]
    rw [htotal]
    cases (after.optionGroup groupId).indexMap with
    | nil => exact List.Pairwise.nil
    | cons key map => exact pairwise_singleton _ _
  · constructor
    · rintro ⟨i, -, hvalue⟩
      exact absurd ⟨id, value, hid, hvalue, hsource⟩ (hnone i)
    · rw [Config.setGroup_self]
      rw [htotal]
      rintro ⟨j, hj, -, hvalue⟩
      obtain rfl : j = 0 := by omega
      have hvalue := (holds_getElem? (h.index id hid) (i := 0) (by rfl)).mp hvalue
      exact absurd ⟨id, value, hid, hvalue, hsource⟩ (hnone 0)

/-- **Phase 6 keeps the values of a group** exactly when a single index with
values is the first one. -/
theorem cfgParseGroupRemove_iff (hwhole : CfgGroupWhole before groupId)
    (hpos : 0 < (before.optionGroup groupId).indexMap.length)
    (hsorted : (before.optionGroup groupId).indexMap.Pairwise (· < ·)) {keep : ℕ → Bool}
    (hkeep : ∀ i, keep i = true ↔ CfgKept before groupId i) :
    CfgIndexesKept before (cfgParseGroupRemove keep before groupId) groupId ↔
      CfgKeptFirst before groupId := by
  -- what is left before key 1 is considered
  have hleft := hwhole.left.loop keep (before.optionGroup groupId).indexMap.length
    (by rw [length_range])
  rw [Compact.left_range keep hpos] at hleft
  unfold cfgParseGroupRemove
  dsimp only
  rw [hwhole.indexTotal]
  generalize cfgParseIndexLoop keep groupId (before.optionGroup groupId).indexMap.length before =
    after at hleft ⊢
  have hfilter : ∀ i, i ∈ (range (before.optionGroup groupId).indexMap.length).filter keep ↔
      CfgKept before groupId i := by
    intro i
    rw [mem_filter, mem_range, hkeep]
    exact ⟨fun h => h.2, fun h => ⟨hwhole.kept_lt h, h⟩⟩
  have hpairwise : ((range (before.optionGroup groupId).indexMap.length).filter keep).Pairwise
      (· < ·) := pairwise_lt_range.filter _
  generalize (range (before.optionGroup groupId).indexMap.length).filter keep = kept at *
  by_cases hnil : kept = []
  · -- no index has a value
    subst hnil
    rw [if_pos rfl] at hleft
    have hnone : ∀ i, ¬ CfgKept before groupId i :=
      fun i h => absurd ((hfilter i).mpr h) not_mem_nil
    refine iff_of_true ?_ (fun i h => absurd h (hnone i))
    split
    next => exact cfgIndexesKept_none hleft hnone
    next =>
      exact hleft.kept hsorted (cons_ne_nil _ _) (pairwise_singleton _ _)
        (fun i h => absurd h (hnone i))
  · rw [if_neg hnil] at hleft
    have hall : ∀ i, CfgKept before groupId i → i ∈ kept := fun i => (hfilter i).mpr
    by_cases hfirst : CfgKeptFirst before groupId
    · refine iff_of_true ?_ hfirst
      rw [if_neg]
      · exact hleft.kept hsorted hnil hpairwise hall
      · rintro ⟨hone, hzero, -⟩
        rw [hleft.indexTotal] at hone
        obtain ⟨i, rfl⟩ := length_eq_one_iff.mp hone
        have hi := (hfilter i).mp (by simp)
        obtain rfl := hfirst i hi (fun i' h => by simpa using hall i' h)
        rw [(hkeep 0).mpr hi] at hzero
        cases hzero
    · refine iff_of_false (fun hvalues => ?_) hfirst
      unfold CfgKeptFirst at hfirst
      push Not at hfirst
      obtain ⟨i, hi, hunique, hne⟩ := hfirst
      -- only index `i` is left, and its key is not key 1
      have hkept : kept = [i] := by
        cases kept with
        | nil => exact absurd rfl hnil
        | cons a rest =>
          obtain rfl := hunique a ((hfilter a).mp mem_cons_self)
          cases rest with
          | nil => rfl
          | cons b rest =>
            have hb := hunique b ((hfilter b).mp (by simp))
            have hlt := rel_of_pairwise_cons hpairwise (mem_cons_self (a := b) (l := rest))
            omega
      subst hkept
      have hlt := hwhole.kept_lt hi
      have hkey : (after.optionGroup groupId).indexMap[0]? =
          some (before.optionGroup groupId).indexMap[i] :=
        (holds_getElem? hleft.indexMap (by rfl)).mpr (getElem?_eq_getElem hlt)
      have hkeypos : (before.optionGroup groupId).indexMap[i] ≠ 0 := by
        have h := pairwise_iff_getElem.mp hsorted 0 i hpos hlt (Nat.pos_of_ne_zero hne)
        omega
      have hzero : keep 0 = false := by
        by_contra hkeep0
        exact hne (hunique 0 ((hkeep 0).mp (by simpa using hkeep0))).symm
      rw [if_pos ⟨hleft.indexTotal, hzero, by rwa [getD_eq_getElem?_getD, hkey]⟩] at hvalues
      obtain ⟨id, value, hgroup, hvalue, hsource⟩ := hi
      obtain ⟨j, hj, hkeyj, -⟩ := (hvalues.value id hgroup _ value hsource).mp
        ⟨i, getElem?_eq_getElem hlt, hvalue⟩
      rw [Config.setGroup_self] at hj hkeyj
      rw [hleft.indexTotal] at hj
      obtain rfl : j = 0 := by
        rw [length_singleton] at hj
        omega
      rw [getElem?_set_self (List.getElem?_eq_some_iff.mp hkey).1] at hkeyj
      exact hkeypos (Option.some.inj hkeyj).symm

end Remove

/-! ## The phases -/

/-- **The index map of phase 4**: all writes are within the allocation, there is
one entry for each index, in the order of the keys, and every key in use has an
entry. -/
structure CfgIndexMapOk (rules : ParseRules n V) (parseOptionList : Fin n → ParseOption)
    (parsed : CfgParsed n V) (groupId : ConfigOptionGroup) : Prop where
  writes : ∀ write ∈ (cfgParseGroupMap parsed.scan groupId).writes,
    write.1 < (cfgParseGroupMap parsed.scan groupId).allocated
  length : (parsed.mapped.optionGroup groupId).indexMap.length =
    (parsed.mapped.optionGroup groupId).indexTotal
  sorted : (parsed.mapped.optionGroup groupId).indexMap.Pairwise (· < ·)
  used : ∀ optionKeyIdx, CfgKeyUsed rules parseOptionList groupId optionKeyIdx →
    optionKeyIdx ∈ (parsed.mapped.optionGroup groupId).indexMap

/-- In the pg group key 1 is in use when any key is. -/
def CfgFirstUsed (rules : ParseRules n V) (parseOptionList : Fin n → ParseOption)
    (groupId : ConfigOptionGroup) : Prop :=
  groupId = .pg → (∃ optionKeyIdx, CfgKeyUsed rules parseOptionList groupId optionKeyIdx) →
    CfgKeyUsed rules parseOptionList groupId 0

theorem cfgParse_parts (h : cfgParse rules help parseOptionList = .ok parsed) :
    CfgScanInv rules parseOptionList (finRange n) parsed.scan ∧
      parsed.mapped = cfgParseGroupMaps parsed.scan ∧
      rules.resolveOrder.foldlM (cfgParseOptionResolve rules parseOptionList)
        ⟨parsed.mapped, fun _ _ => false⟩ = .ok parsed.resolve ∧
      parsed.config = cfgParseGroupRemove (parsed.resolve.optionGroupIndexKeep .repo)
        (cfgParseGroupRemove (parsed.resolve.optionGroupIndexKeep .pg) parsed.resolve.config .pg)
        .repo := by
  obtain ⟨scan, hscan, h⟩ := ok_of_bind h
  obtain ⟨resolve, hresolve, h⟩ := ok_of_bind h
  cases h
  exact ⟨cfgScanInv_all hscan, rfl, hresolve, rfl⟩

section Groups

variable {scan : CfgGroupScan n V}

theorem CfgScanInv.used_iff (h : CfgScanInv rules parseOptionList (List.finRange n) scan)
    (groupId : ConfigOptionGroup) (optionKeyIdx : ℕ) :
    scan.groupIdxMap groupId optionKeyIdx = true ↔
      CfgKeyUsed rules parseOptionList groupId optionKeyIdx := by
  refine (h.used groupId optionKeyIdx).trans (exists_congr (fun id => exists_congr (fun value => ?_)))
  simp only [mem_finRange, true_and]

theorem CfgKeyUsed.lt {groupId : ConfigOptionGroup} {optionKeyIdx : ℕ}
    (h : CfgKeyUsed rules parseOptionList groupId optionKeyIdx) :
    optionKeyIdx < CFG_OPTION_KEY_MAX := by
  obtain ⟨id, value, -, -, hvalue, -⟩ := h
  exact Nat.lt_of_lt_of_le (List.getElem?_eq_some_iff.mp hvalue).1 (parseOptionList id).total_le

theorem keyTotal_ne_zero_iff (h : CfgScanInv rules parseOptionList (List.finRange n) scan)
    (groupId : ConfigOptionGroup) : keyTotal (scan.groupIdxMap groupId) ≠ 0 ↔
      ∃ optionKeyIdx, CfgKeyUsed rules parseOptionList groupId optionKeyIdx := by
  unfold keyTotal
  rw [← Nat.pos_iff_ne_zero, countP_pos_iff]
  constructor
  · rintro ⟨key, -, hkey⟩
    exact ⟨key, (h.used_iff groupId key).mp hkey⟩
  · rintro ⟨key, hkey⟩
    exact ⟨key, mem_range.mpr hkey.lt, (h.used_iff groupId key).mpr hkey⟩

theorem cfgParseGroupMaps_valid {groupId : ConfigOptionGroup}
    (hvalid : ((cfgParseGroupMaps scan).optionGroup groupId).valid = true) :
    (cfgParseGroupMaps scan).optionGroup groupId =
      ⟨true, (cfgParseGroupMap scan groupId).indexTotal, (cfgParseGroupMap scan groupId).indexMap⟩ := by
  have hgroup : (scan.config.optionGroup groupId).valid = true := by
    unfold cfgParseGroupMaps at hvalid
    dsimp only at hvalid
    split at hvalid
    next hv => exact hv
    next => exact hvalid
  unfold cfgParseGroupMaps
  dsimp only
  rw [if_pos hgroup, hgroup]

theorem cfgParseGroupMaps_invalid {groupId : ConfigOptionGroup}
    (hvalid : (scan.config.optionGroup groupId).valid = false) :
    (cfgParseGroupMaps scan).optionGroup groupId = scan.config.optionGroup groupId := by
  unfold cfgParseGroupMaps
  dsimp only
  rw [hvalid, if_neg Bool.false_ne_true]

section

variable (h : CfgScanInv rules parseOptionList (finRange n) scan)
include h

theorem cfgParseGroupMap_eq (groupId : ConfigOptionGroup) :
    cfgParseGroupMap scan groupId =
      cfgParseIndexMap groupId (keyTotal (scan.groupIdxMap groupId)) (scan.groupIdxMap groupId) := by
  unfold cfgParseGroupMap
  rw [h.indexTotal]

/-- **What is written when key 1 of the pg group is in use.** -/
theorem CfgFirstUsed.indexMap {groupId : ConfigOptionGroup}
    (hfirst : CfgFirstUsed rules parseOptionList groupId) :
    (∀ write ∈ (cfgParseGroupMap scan groupId).writes,
        write.1 < (cfgParseGroupMap scan groupId).allocated) ∧
      (cfgParseGroupMap scan groupId).indexMap = indexMapOf (scan.groupIdxMap groupId) ∧
      (cfgParseGroupMap scan groupId).indexTotal = (indexMapOf (scan.groupIdxMap groupId)).length := by
  rw [cfgParseGroupMap_eq h]
  refine cfgParseIndexMap_ok (fun hpg hne => ?_)
  exact (h.used_iff groupId 0).mpr (hfirst hpg ((keyTotal_ne_zero_iff h groupId).mp hne))

end

/-- **Phase 4 is right** exactly when key 1 of the pg group is in use. -/
theorem cfgIndexMapOk_iff {parsed : CfgParsed n V}
    (h : CfgScanInv rules parseOptionList (finRange n) parsed.scan)
    (hmapped : parsed.mapped = cfgParseGroupMaps parsed.scan) {groupId : ConfigOptionGroup}
    (hvalid : (parsed.mapped.optionGroup groupId).valid = true) :
    CfgIndexMapOk rules parseOptionList parsed groupId ↔
      CfgFirstUsed rules parseOptionList groupId := by
  rw [hmapped] at hvalid
  have hgroup := cfgParseGroupMaps_valid hvalid
  rw [← hmapped] at hgroup
  constructor
  · rintro hok rfl hused
    by_contra hnot
    have hzero : parsed.scan.groupIdxMap .pg 0 = false := by
      rw [← Bool.not_eq_true]
      exact fun hkey => hnot ((h.used_iff .pg 0).mp hkey)
    obtain ⟨write, hwrite, hbehind⟩ :=
      cfgParseIndexMap_overflow ((keyTotal_ne_zero_iff h .pg).mpr hused) hzero
    rw [← cfgParseGroupMap_eq h] at hwrite hbehind
    exact absurd (hok.writes write hwrite) (Nat.not_lt.mpr hbehind)
  · intro hfirst
    obtain ⟨hwrites, hmap, htotal⟩ := hfirst.indexMap h
    refine ⟨hwrites, ?_, ?_, fun key hkey => ?_⟩
    · rw [hgroup]
      rw [hmap, htotal]
    · rw [hgroup]
      rw [hmap]
      exact pairwise_indexMapOf _
    · rw [hgroup]
      rw [hmap]
      exact mem_indexMapOf ((h.used_iff groupId key).mpr hkey) hkey.lt

theorem length_indexMap (map : CfgIndexMap) : map.indexMap.length = map.allocated := by
  unfold CfgIndexMap.indexMap
  have hset : ∀ (writes : List (ℕ × ℕ)) (memory : List ℕ),
      (writes.foldl (fun memory write => memory.set write.1 write.2) memory).length =
        memory.length := by
    intro writes
    induction writes with
    | nil => exact fun _ => rfl
    | cons write writes ih => exact fun memory => (ih _).trans length_set
  rw [hset, length_replicate]

theorem cfgParseIndexMap_allocated (groupId : ConfigOptionGroup) (total : ℕ) (groupIdxMap : ℕ → Bool) :
    (cfgParseIndexMap groupId total groupIdxMap).allocated =
      (cfgParseIndexMap groupId total groupIdxMap).indexTotal := by
  unfold cfgParseIndexMap
  split
  next => rfl
  next => rfl

section

variable (h : CfgScanInv rules parseOptionList (finRange n) scan)
include h

theorem length_groupMap (groupId : ConfigOptionGroup) :
    ((cfgParseGroupMaps scan).optionGroup groupId).indexTotal =
      ((cfgParseGroupMaps scan).optionGroup groupId).indexMap.length := by
  cases hvalid : (scan.config.optionGroup groupId).valid with
  | true =>
    have hmap : ((cfgParseGroupMaps scan).optionGroup groupId).valid = true := by
      unfold cfgParseGroupMaps
      dsimp only
      rw [if_pos hvalid, hvalid]
    rw [cfgParseGroupMaps_valid hmap]
    exact (length_indexMap _).trans (cfgParseIndexMap_allocated groupId _ _) |>.symm
  | false =>
    rw [cfgParseGroupMaps_invalid hvalid, h.indexMap, length_nil, h.indexTotal]
    by_contra hne
    obtain ⟨key, id, value, hv, hgroup, -⟩ := (keyTotal_ne_zero_iff h groupId).mp hne
    have hgroupValid := (h.valid groupId).mpr ⟨id, mem_finRange id, hv, hgroup⟩
    rw [hvalid] at hgroupValid
    cases hgroupValid

/-- Before phase 5 no option has a value. -/
theorem cfgResolveInv_mapped :
    CfgResolveInv rules (cfgParseGroupMaps scan) []
      ⟨cfgParseGroupMaps scan, fun _ _ => false⟩ := by
  have hoption : ∀ id, (cfgParseGroupMaps scan).option id =
      if rules.valid id = true then ⟨true, (rules.option id).group, []⟩ else ⟨false, none, []⟩ := by
    intro id
    have hid := h.option id
    simp only [mem_finRange, true_and] at hid
    exact hid
  have hindex : ∀ id, ((cfgParseGroupMaps scan).option id).index = [] := by
    intro id
    rw [hoption]
    split
    next => rfl
    next => rfl
  refine ⟨rfl, fun id => ?_, fun id => ?_, fun id _ => hindex id,
    fun id hid => absurd hid not_mem_nil, fun groupId i => ?_⟩
  · dsimp only
    rw [hoption]
    cases rules.valid id
    · rfl
    · rfl
  · dsimp only
    rw [hoption]
    split
    next => rfl
    next => rfl
  · refine iff_of_false Bool.false_ne_true ?_
    rintro ⟨id, value, -, hvalue, -⟩
    rw [hindex] at hvalue
    cases hvalue

end

end Groups

/-! ## The other group -/

structure CfgSameGroup (before after : Config n V) (groupId : ConfigOptionGroup) : Prop where
  optionGroup : after.optionGroup groupId = before.optionGroup groupId
  group : ∀ optionId, (after.option optionId).group = (before.option optionId).group
  option : ∀ optionId, (before.option optionId).group = some groupId →
    after.option optionId = before.option optionId

section SameGroup

variable {before after config : Config n V} {groupId : ConfigOptionGroup}

section

variable (h : CfgSameGroup before after groupId)
include h

theorem CfgSameGroup.kept (i : ℕ) : CfgKept after groupId i ↔ CfgKept before groupId i := by
  refine exists_congr (fun id => exists_congr (fun value => ?_))
  rw [h.group id]
  refine and_congr_right (fun hgroup => ?_)
  rw [h.option id hgroup]

theorem CfgSameGroup.keptFirst : CfgKeptFirst after groupId ↔ CfgKeptFirst before groupId := by
  unfold CfgKeptFirst
  simp only [h.kept]

theorem CfgSameGroup.whole (hwhole : CfgGroupWhole before groupId) :
    CfgGroupWhole after groupId := by
  refine ⟨?_, fun id hid => ?_⟩
  · rw [h.optionGroup]
    exact hwhole.indexTotal
  · rw [h.group id] at hid
    rw [h.option id hid, h.optionGroup]
    exact hwhole.length id hid

theorem CfgSameGroup.indexesKept_left :
    CfgIndexesKept after config groupId ↔ CfgIndexesKept before config groupId := by
  have hvalue : ∀ id, (before.option id).group = some groupId →
      (after.option id).index = (before.option id).index := fun id hid => by rw [h.option id hid]
  constructor
  · refine fun hkept => ⟨hkept.total, hkept.sorted, fun id hid key value hsource => ?_⟩
    rw [← hkept.value id ((h.group id).trans hid) key value hsource, h.optionGroup, hvalue id hid]
  · refine fun hkept => ⟨hkept.total, hkept.sorted, fun id hid key value hsource => ?_⟩
    rw [h.group id] at hid
    rw [← hkept.value id hid key value hsource, h.optionGroup, hvalue id hid]

theorem CfgSameGroup.indexesKept_right
    (hgroup : ∀ optionId, (before.option optionId).group = (config.option optionId).group) :
    CfgIndexesKept config after groupId ↔ CfgIndexesKept config before groupId := by
  have hvalue : ∀ id, (config.option id).group = some groupId →
      (after.option id).index = (before.option id).index :=
    fun id hid => by rw [h.option id ((hgroup id).trans hid)]
  constructor
  · rintro ⟨htotal, hsorted, hkept⟩
    rw [h.optionGroup] at htotal hsorted
    refine ⟨htotal, hsorted, fun id hid key value hsource => ?_⟩
    rw [hkept id hid key value hsource, h.optionGroup, hvalue id hid]
  · rintro ⟨htotal, hsorted, hkept⟩
    refine ⟨?_, ?_, fun id hid key value hsource => ?_⟩
    · rw [h.optionGroup]
      exact htotal
    · rw [h.optionGroup]
      exact hsorted
    · rw [hkept id hid key value hsource, h.optionGroup, hvalue id hid]

end

/-- Options keep their groups, and phase 6 of a group does not touch another one. -/
theorem CfgGroupWhole.remove (hwhole : CfgGroupWhole before groupId) (keep : ℕ → Bool) :
    (∀ optionId, ((cfgParseGroupRemove keep before groupId).option optionId).group =
      (before.option optionId).group) ∧
    ∀ groupId' ≠ groupId, CfgSameGroup before (cfgParseGroupRemove keep before groupId) groupId' := by
  have hleft := hwhole.left.loop keep (before.optionGroup groupId).indexMap.length
    (by rw [length_range])
  unfold cfgParseGroupRemove
  dsimp only
  rw [hwhole.indexTotal]
  generalize cfgParseIndexLoop keep groupId (before.optionGroup groupId).indexMap.length before =
    config at hleft ⊢
  have hother : ∀ groupId' ≠ groupId, CfgSameGroup before config groupId' := by
    refine fun groupId' hne => ⟨hleft.otherGroup groupId' hne, hleft.group, fun id hid => ?_⟩
    refine hleft.otherOption id (fun hid' => hne ?_)
    exact Option.some.inj (hid.symm.trans hid')
  split
  next =>
    refine ⟨hleft.group, fun groupId' hne => ?_⟩
    have h := hother groupId' hne
    exact ⟨(Config.setGroup_of_ne config hne _).trans h.optionGroup, h.group, h.option⟩
  next => exact ⟨hleft.group, hother⟩

end SameGroup

/-! ## The result -/

section

variable (h : cfgParse rules help parseOptionList = .ok parsed) (groupId : ConfigOptionGroup)
include h groupId

/-- **Before phase 6 all groups are whole**, and the indexes to keep are those
with values. -/
theorem cfgParse_whole :
    CfgGroupWhole parsed.resolve.config groupId ∧
      (∀ i, parsed.resolve.optionGroupIndexKeep groupId i = true ↔
        CfgKept parsed.resolve.config groupId i) ∧
      parsed.resolve.config.optionGroup = parsed.mapped.optionGroup := by
  obtain ⟨hscan, hmapped, hresolve, -⟩ := cfgParse_parts h
  rw [hmapped] at hresolve
  have hinv := cfgResolveInv_foldlM rules.resolveOrder
    (by rw [nil_append]; exact rules.resolveOrder_nodup) (cfgResolveInv_mapped hscan) hresolve
  rw [nil_append] at hinv
  have htotal : (parsed.resolve.config.optionGroup groupId).indexTotal =
      (parsed.resolve.config.optionGroup groupId).indexMap.length := by
    rw [hinv.optionGroup]
    exact length_groupMap hscan groupId
  refine ⟨⟨htotal, fun id hid => ?_⟩, hinv.keep groupId, by rw [hinv.optionGroup, hmapped]⟩
  have hgroup := hinv.group id
  rw [hid] at hgroup
  split at hgroup
  next hvalid =>
    rw [hinv.length id (rules.mem_resolveOrder id) hvalid, ← hgroup, ← htotal, hinv.optionGroup]
    rfl
  next => cases hgroup

/-- **What phase 6 does to a group.** -/
theorem cfgParse_kept (hpos : 0 < (parsed.mapped.optionGroup groupId).indexMap.length)
    (hsorted : (parsed.mapped.optionGroup groupId).indexMap.Pairwise (· < ·)) :
    CfgIndexesKept parsed.resolve.config parsed.config groupId ↔
      CfgKeptFirst parsed.resolve.config groupId := by
  obtain ⟨-, -, -, hconfig⟩ := cfgParse_parts h
  obtain ⟨hpg, hkeepPg, -⟩ := cfgParse_whole h .pg
  obtain ⟨hrepo, hkeepRepo, hgroups⟩ := cfgParse_whole h .repo
  obtain ⟨hgroupPg, hsamePg⟩ := hpg.remove (parsed.resolve.optionGroupIndexKeep .pg)
  rw [← hgroups] at hpos hsorted
  rw [hconfig]
  have hsame := hsamePg .repo (by decide)
  have hwhole := hsame.whole hrepo
  cases groupId with
  | pg =>
    have hlast := (hwhole.remove (parsed.resolve.optionGroupIndexKeep .repo)).2 .pg (by decide)
    exact (hlast.indexesKept_right hgroupPg).trans (cfgParseGroupRemove_iff hpg hpos hsorted hkeepPg)
  | repo =>
    rw [← hsame.optionGroup] at hpos hsorted
    refine hsame.indexesKept_left.symm.trans ?_
    refine (cfgParseGroupRemove_iff hwhole hpos hsorted (fun i => ?_)).trans hsame.keptFirst
    rw [hkeepRepo, hsame.kept]

end

/-- The options `repo-path`, `repo-type`, `repo-s3-bucket` (which depends on the
type) and `pg-path` for a command that does not require a path. -/
def cfgRulesSample : ParseRules 4 Str where
  option := fun optionId => ⟨false, some (if optionId = 3 then .pg else .repo)⟩
  resolveOrder := finRange 4
  resolveOrder_nodup := nodup_finRange 4
  mem_resolveOrder := mem_finRange
  valid := fun _ => true
  depend := fun config optionId optionListIdx =>
    if optionId = 2 then
      ⟨((config.option 1).index[optionListIdx]?.bind (fun value => value.value)) = some "s3".toList, none⟩
    else ⟨true, none⟩
  value := fun _ _ _ parsed => .ok (parsed.valueList.headD [])
  defaultValue := fun _ optionId _ =>
    if optionId = 0 then some "/var/lib/pgxbackup".toList
    else if optionId = 1 then some "posix".toList
    else none
  required := fun _ optionId _ => optionId = 2
  invalidError := fun _ => ⟨.optionInvalidError, "option not valid for command".toList⟩
  dependError := fun _ _ _ => ⟨.optionInvalidError, "option not valid without option".toList⟩
  requiredError := fun _ _ => ⟨.optionRequiredError, "command requires option".toList⟩

/-- A value that was found in the configuration file. -/
def cfgValueSample (value : String) : ParseOptionValue := ⟨true, false, false, .config, [value.toList]⟩

/-- The values of the four options. -/
def cfgOptionListSample (repoPath repoBucket pgPath : ParseOption) : Fin 4 → ParseOption :=
  fun optionId =>
    if optionId = 0 then repoPath
    else if optionId = 2 then repoBucket
    else if optionId = 3 then pgPath
    else ⟨[], by decide⟩

/-- `repo1-path`, `repo3-path` and, while `repo2-type` has its default,
`repo2-s3-bucket`. -/
def cfgRepoSample : Fin 4 → ParseOption :=
  cfgOptionListSample
    ⟨[cfgValueSample "/repo1", parseOptionValueNone, cfgValueSample "/repo3"], by decide⟩
    ⟨[parseOptionValueNone, cfgValueSample "bucket"], by decide⟩
    ⟨[], by decide⟩

/-- `repo2-path`, `pg2-path` and, while `repo1-type` has its default,
`repo1-s3-bucket`. -/
def cfgPhantomSample : Fin 4 → ParseOption :=
  cfgOptionListSample
    ⟨[parseOptionValueNone, cfgValueSample "/repo2"], by decide⟩
    ⟨[cfgValueSample "bucket"], by decide⟩
    ⟨[parseOptionValueNone, cfgValueSample "/pg2"], by decide⟩

theorem cfgParse_check (rules : ParseRules n V) (list : Fin n → ParseOption)
    {P : CfgParsed n V → Bool}
    (h : (match cfgParse rules false list with
      | .ok parsed => P parsed
      | .error _ => false) = true) :
    ∃ parsed, cfgParse rules false list = .ok parsed ∧ P parsed = true := by
  cases hparsed : cfgParse rules false list with
  | error error =>
    rw [hparsed] at h
    cases h
  | ok parsed =>
    rw [hparsed] at h
    exact ⟨parsed, rfl, h⟩

end PgxBackup
