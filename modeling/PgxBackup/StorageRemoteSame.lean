import Mathlib.Data.List.Forall2
import Mathlib.Data.Option.Defs
import PgxBackup.StorageRemoteList

/-!
# A storage list survives the protocol

What the reader keeps of the last entry is what the writer keeps of it, in
every field that is left out when it does not change. That holds before the
first entry and is preserved by every entry, so every default that the reader
fills in is the value that the writer left out.
-/

namespace PgxBackup

open List

namespace StorageRemote

variable {level : StorageInfoLevel} {calls : List PckWriteCall} {r : PackRead}

/-! ## The calls of an entry -/

def ownerCalls : Option ByteStr → Option ByteStr → List PckWriteCall
  | none, _ => [.bool true false 0]
  | some owner, defaultValue => [.bool false false 0, .str (some owner) false defaultValue]

def linkCalls (info : StorageInfo ByteStr) : List PckWriteCall :=
  if info.type = .link then [.str info.linkDestination false none] else []

def detailCalls (data : StorageRemoteInfoProtocolWriteData) (info : StorageInfo ByteStr) :
    List PckWriteCall :=
  .mode info.mode false data.modeLast :: .u32 info.userId false data.userIdLast ::
    (ownerCalls info.user data.user ++ (.u32 info.groupId false data.groupIdLast ::
      (ownerCalls info.group data.group ++ linkCalls info)))

/-- The calls for an entry, behind its name. -/
def infoCalls (data : StorageRemoteInfoProtocolWriteData) (info : StorageInfo ByteStr) :
    List PckWriteCall :=
  .u32 (storageTypeToU32 info.type) false 0 ::
    .time (info.timeModified - data.timeModifiedLast) false 0 ::
    ((if info.type = .file then [.u64 info.size false 0] else []) ++ (.str info.versionId false none ::
      (if info.level = .levelDetail then detailCalls data info else [])))

def listCalls : StorageRemoteInfoProtocolWriteData → List (StorageInfo ByteStr) → List PckWriteCall
  | _, [] => []
  | data, info :: infos =>
    .objBegin :: ((.str info.name false none :: infoCalls data info) ++
      .objEnd :: listCalls (data.store info) infos)

/-! ### The writer makes these calls -/

theorem storageRemoteOwnerPut_eq (write : PackWrite) (owner defaultValue : Option ByteStr) :
    storageRemoteOwnerPut write owner defaultValue
      = (ownerCalls owner defaultValue).foldlM pckWriteCall write := by
  cases owner with
  | none => simp only [storageRemoteOwnerPut, ownerCalls, pckWriteCall, foldlM_cons,
      foldlM_nil, bind_pure]
  | some owner => simp only [storageRemoteOwnerPut, ownerCalls, pckWriteCall, foldlM_cons,
      foldlM_nil, bind_pure]

/-- **An entry is written by its calls.** -/
theorem storageRemoteInfoProtocolPut_eq (data : StorageRemoteInfoProtocolWriteData)
    (write : PackWrite) (info : StorageInfo ByteStr) :
    storageRemoteInfoProtocolPut data write info = (do
      let write ← (infoCalls data info).foldlM pckWriteCall write
      .ok (data.store info, write)) := by
  unfold storageRemoteInfoProtocolPut infoCalls detailCalls linkCalls
  simp only [storageRemoteOwnerPut_eq]
  by_cases hfile : info.type = .file
  · have hlink : info.type ≠ .link := by
      rw [hfile]
      exact nofun
    by_cases hlevel : info.level = .levelDetail
    · simp only [if_pos hfile, if_neg hlink, if_pos hlevel, pckWriteCall, foldlM_cons,
        foldlM_append, foldlM_nil, bind_assoc, pure_bind, append_nil]
    · simp only [if_pos hfile, if_neg hlevel, pckWriteCall, foldlM_cons, foldlM_append,
        foldlM_nil, bind_assoc, pure_bind]
  · by_cases hlevel : info.level = .levelDetail
    · by_cases hlink : info.type = .link
      · simp only [if_neg hfile, if_pos hlink, if_pos hlevel, pckWriteCall, foldlM_cons,
          foldlM_append, foldlM_nil, bind_assoc, pure_bind, nil_append]
      · simp only [if_neg hfile, if_neg hlink, if_pos hlevel, pckWriteCall, foldlM_cons,
          foldlM_append, bind_assoc, pure_bind, nil_append, append_nil]
    · simp only [if_neg hfile, if_neg hlevel, pckWriteCall, foldlM_cons, foldlM_nil,
        bind_assoc, pure_bind, nil_append]

/-- **A list is written by its calls.** -/
theorem storageRemoteListPut_eq (infos : List (StorageInfo ByteStr))
    (data : StorageRemoteInfoProtocolWriteData) (write : PackWrite) :
    storageRemoteListPut write data infos = (listCalls data infos).foldlM pckWriteCall write := by
  induction infos generalizing data write with
  | nil => rfl
  | cons info infos ih =>
    unfold storageRemoteListPut listCalls
    simp only [storageRemoteInfoProtocolPut_eq, ih, pckWriteCall, foldlM_cons,
      foldlM_append, cons_append, bind_assoc, ok_bind]

/-! ### The calls are allowed -/

theorem ownerCalls_isField (owner defaultValue : Option ByteStr) :
    ∀ call ∈ ownerCalls owner defaultValue, call.isField = true := by
  cases owner with
  | none => simp [ownerCalls, PckWriteCall.isField]
  | some owner => simp [ownerCalls, PckWriteCall.isField]

theorem length_ownerCalls (owner defaultValue : Option ByteStr) :
    (ownerCalls owner defaultValue).length ≤ 2 := by
  cases owner with
  | none => exact Nat.le_succ _
  | some owner => exact le_rfl

theorem isField_str (value : Option ByteStr) : (PckWriteCall.str value false none).isField = true := by
  cases value with
  | none => rfl
  | some value => rfl

section

variable (data : StorageRemoteInfoProtocolWriteData) (info : StorageInfo ByteStr)
include data info

theorem infoCalls_isField :
    ∀ call ∈ PckWriteCall.str info.name false none :: infoCalls data info, call.isField = true := by
  have hlink : ∀ call ∈ linkCalls info, call.isField = true := by
    unfold linkCalls
    split
    · exact forall_mem_singleton.mpr (isField_str _)
    · exact fun call hmem => absurd hmem not_mem_nil
  have hdetail : ∀ call ∈ detailCalls data info, call.isField = true := by
    unfold detailCalls
    simp only [forall_mem_cons, forall_mem_append]
    exact ⟨rfl, rfl, ownerCalls_isField _ _, rfl, ownerCalls_isField _ _, hlink⟩
  unfold infoCalls
  simp only [forall_mem_cons, forall_mem_append]
  refine ⟨isField_str _, rfl, rfl, ?_, isField_str _, ?_⟩
  · split
    · exact forall_mem_singleton.mpr rfl
    · exact fun call hmem => absurd hmem not_mem_nil
  · split
    · exact hdetail
    · exact fun call hmem => absurd hmem not_mem_nil

theorem length_infoCalls : (infoCalls data info).length ≤ 12 := by
  have hlink : (linkCalls info).length ≤ 1 := by
    unfold linkCalls
    split
    · exact le_rfl
    · exact Nat.zero_le _
  have huser := length_ownerCalls info.user data.user
  have hgroup := length_ownerCalls info.group data.group
  have hdetail : (if info.level = .levelDetail then detailCalls data info else []).length ≤ 8 := by
    unfold detailCalls
    split
    · simp only [length_cons, length_append]
      omega
    · exact Nat.zero_le _
  have hsize : (if info.type = .file then [PckWriteCall.u64 info.size false 0] else []).length ≤ 1 := by
    split
    · exact le_rfl
    · exact Nat.zero_le _
  unfold infoCalls
  simp only [length_cons, length_append]
  omega

end

section

variable (infos : List (StorageInfo ByteStr)) (data : StorageRemoteInfoProtocolWriteData)
include infos data

theorem callsAllowed_listCalls {n : ℕ} (hroom : n + infos.length < UINT_MAX - 1) :
    CallsAllowed ((.obj, n), []) (listCalls data infos) := by
  induction infos generalizing data n with
  | nil => rfl
  | cons info infos ih =>
    rw [length_cons] at hroom
    have hlength := length_infoCalls data info
    refine callsAllowed_obj (infoCalls_isField data info) ?_ (by omega) (ih _ (by omega))
    rw [length_cons]
    exact lt_of_le_of_lt (Nat.succ_le_succ hlength) (by decide)

theorem length_le_countP_listCalls :
    infos.length ≤ (listCalls data infos).countP PckWriteCall.isObjBegin := by
  induction infos generalizing data with
  | nil => exact Nat.zero_le _
  | cons info infos ih =>
    have hinfos := ih (data.store info)
    unfold listCalls
    have hend : (PckWriteCall.objEnd :: listCalls (data.store info) infos).countP PckWriteCall.isObjBegin
        = (listCalls (data.store info) infos).countP PckWriteCall.isObjBegin :=
      countP_cons_of_neg nofun
    rw [length_cons, countP_cons_of_pos rfl, countP_append, hend]
    omega

end

/-! ## The defaults on both sides -/

theorem strZ_bytes (s : ByteStr) : strZ s.bytes = s.bytes := by
  refine takeWhile_eq_self_iff.mpr (fun byte hmem => decide_eq_true ?_)
  rintro rfl
  exact s.zeroFree hmem

theorem map_strZ_bytes (s : Option ByteStr) : (s.map ByteStr.bytes).map strZ = s.map ByteStr.bytes := by
  cases s with
  | none => rfl
  | some s => exact congrArg some (strZ_bytes s)

theorem strEqRead_bytes (a b : Option ByteStr) :
    strEqRead (a.map ByteStr.bytes) (b.map ByteStr.bytes) = strEq a b := by
  cases a with
  | none => cases b <;> rfl
  | some a => cases b <;> rfl

/-- What a reader keeps when the writer keeps this. -/
def StorageRemoteInfoProtocolWriteData.read (data : StorageRemoteInfoProtocolWriteData) :
    StorageRemoteInfoData where
  timeModifiedLast := data.timeModifiedLast
  modeLast := data.modeLast
  userIdLast := data.userIdLast
  groupIdLast := data.groupIdLast
  user := data.user.map ByteStr.bytes
  group := data.group.map ByteStr.bytes

/-- **Reader and writer keep the same** of the last entry: the time, and
everything else that is sent at the level. -/
structure KeepSame (level : StorageInfoLevel) (data : StorageRemoteInfoProtocolWriteData)
    (parseData : StorageRemoteInfoData) : Prop where
  timeModifiedLast : parseData.timeModifiedLast = data.timeModifiedLast
  detail : level = .levelDetail → parseData = data.read

/-- The entry that is received for one that was sent. -/
def StorageInfo.received (info : StorageInfo ByteStr) : StorageInfo (List UInt8) :=
  let detail : Bool := info.level = .levelDetail
  { name := info.name.map ByteStr.bytes
    level := info.level
    isPresent := true
    type := info.type
    size := if info.type = .file then info.size else 0
    timeModified := info.timeModified
    versionId := info.versionId.map ByteStr.bytes
    mode := if detail then info.mode else 0
    userId := if detail then info.userId else 0
    groupId := if detail then info.groupId else 0
    user := if detail then info.user.map ByteStr.bytes else none
    group := if detail then info.group.map ByteStr.bytes else none
    linkDestination :=
      if detail && info.type = .link then info.linkDestination.map ByteStr.bytes else none }

/-- **An entry updates both sides alike.** -/
theorem KeepSame.store {data : StorageRemoteInfoProtocolWriteData} {parseData : StorageRemoteInfoData}
    (h : KeepSame level data parseData) {info : StorageInfo ByteStr} (hlevel : info.level = level) :
    KeepSame level (data.store info) (parseData.store info.received) where
  timeModifiedLast := rfl
  detail := by
    intro hdetail
    rw [h.detail hdetail]
    have hdetail : info.level = .levelDetail := hlevel.trans hdetail
    have howner (owner last : Option ByteStr) :
        (if (owner.map ByteStr.bytes).isSome && !strEqRead (owner.map ByteStr.bytes) (last.map ByteStr.bytes)
          then (owner.map ByteStr.bytes).map strZ else last.map ByteStr.bytes)
        = (if owner.isSome && !strEq owner last then owner else last).map ByteStr.bytes := by
      rw [strEqRead_bytes, map_strZ_bytes, Option.isSome_map, apply_ite (Option.map ByteStr.bytes)]
    unfold StorageRemoteInfoData.store StorageRemoteInfoProtocolWriteData.store
      StorageRemoteInfoProtocolWriteData.read StorageInfo.received
    simp only [hdetail, decide_true, if_true, howner]

/-! ## Reading an entry -/

theorem storageRemoteOwnerGet_ok {owner defaultValue : Option ByteStr}
    (h : Reading (ownerCalls owner defaultValue ++ calls) r) :
    ∃ r', storageRemoteOwnerGet r (defaultValue.map ByteStr.bytes)
      = .ok (owner.map ByteStr.bytes, r') ∧ Reading calls r' := by
  unfold storageRemoteOwnerGet
  cases owner with
  | none =>
    obtain ⟨r', hread, hreading⟩ := h.bool
    refine ⟨r', ?_, hreading⟩
    rw [hread]
    rfl
  | some owner =>
    obtain ⟨r₁, hread₁, hreading₁⟩ := h.bool
    obtain ⟨r', hread, hreading⟩ := hreading₁.strDefault
    refine ⟨r', ?_, hreading⟩
    rw [hread₁, ok_bind]
    exact hread

/-- **The fields of the detail level are read.** -/
theorem storageRemoteInfoGetDetail_ok {data : StorageRemoteInfoProtocolWriteData}
    {info : StorageInfo ByteStr} {got : StorageInfo (List UInt8)} (htype : got.type = info.type)
    (hlink : got.linkDestination = none) (h : Reading (detailCalls data info ++ calls) r) :
    ∃ r', storageRemoteInfoGetDetail data.read r got = .ok ({ got with
        mode := info.mode
        userId := info.userId
        user := info.user.map ByteStr.bytes
        groupId := info.groupId
        group := info.group.map ByteStr.bytes
        linkDestination :=
          if info.type = .link then info.linkDestination.map ByteStr.bytes else none }, r') ∧
      Reading calls r' := by
  unfold detailCalls at h
  simp only [cons_append, append_assoc] at h
  obtain ⟨r₁, hmode, h₁⟩ := h.modeDefault
  obtain ⟨r₂, huserId, h₂⟩ := h₁.u32Default
  obtain ⟨r₃, huser, h₃⟩ := storageRemoteOwnerGet_ok h₂
  obtain ⟨r₄, hgroupId, h₄⟩ := h₃.u32Default
  obtain ⟨r₅, hgroup, h₅⟩ := storageRemoteOwnerGet_ok h₄
  unfold storageRemoteInfoGetDetail StorageRemoteInfoProtocolWriteData.read
  dsimp only
  rw [hmode, ok_bind, huserId, ok_bind, huser, ok_bind, hgroupId, ok_bind, hgroup, ok_bind, htype]
  unfold linkCalls at h₅
  by_cases hislink : info.type = .link
  · rw [if_pos hislink] at h₅
    obtain ⟨r', hread, hreading⟩ := h₅.str
    refine ⟨r', ?_, hreading⟩
    simp only [if_pos hislink, hread, ok_bind]
  · rw [if_neg hislink] at h₅
    refine ⟨r₅, ?_, h₅⟩
    simp only [if_neg hislink, hlink, ok_bind]

theorem storageTypeOfU32_toU32 (type : StorageType) : storageTypeOfU32 (storageTypeToU32 type) = type := by
  cases type <;> rfl

/-- **An entry is read as it was sent.** -/
theorem storageRemoteInfoGet_ok {data : StorageRemoteInfoProtocolWriteData}
    {parseData : StorageRemoteInfoData} {info : StorageInfo ByteStr}
    (hsame : KeepSame info.level data parseData) (h : Reading (infoCalls data info ++ calls) r) :
    ∃ r', storageRemoteInfoGet parseData r
        { name := info.name.map ByteStr.bytes, level := info.level, isPresent := true }
      = .ok (parseData.store info.received, info.received, r') ∧ Reading calls r' := by
  have htime : info.timeModified - data.timeModifiedLast + parseData.timeModifiedLast
      = info.timeModified := by
    rw [hsame.timeModifiedLast]
    exact Int64.sub_add_cancel _ _
  unfold infoCalls at h
  simp only [cons_append, append_assoc] at h
  obtain ⟨r₁, htype, h₁⟩ := h.u32
  obtain ⟨r₂, htimeRead, h₂⟩ := h₁.time
  -- the size is there for a file only
  obtain ⟨r₃, hsize, h₃⟩ : ∃ r₃, (if info.type = .file then pckReadU64 r₂ 0 0 else .ok (0, r₂))
      = .ok (if info.type = .file then info.size else 0, r₃) ∧
      Reading (.str info.versionId false none ::
        ((if info.level = .levelDetail then detailCalls data info else []) ++ calls)) r₃ := by
    by_cases hfile : info.type = .file
    · rw [if_pos hfile] at h₂ ⊢
      rw [if_pos hfile]
      exact h₂.u64
    · rw [if_neg hfile] at h₂ ⊢
      rw [if_neg hfile]
      exact ⟨r₂, rfl, h₂⟩
  obtain ⟨r₄, hversion, h₄⟩ := h₃.str
  unfold storageRemoteInfoGet
  rw [htype, ok_bind]
  dsimp only
  rw [htimeRead, ok_bind]
  rw [storageTypeOfU32_toU32, htime, hsize, ok_bind]
  rw [hversion, ok_bind]
  by_cases hlevel : info.level = .levelDetail
  · rw [if_pos hlevel] at h₄ ⊢
    rw [hsame.detail hlevel]
    obtain ⟨r', hread, hreading⟩ := @storageRemoteInfoGetDetail_ok _ _ data info
      { name := info.name.map ByteStr.bytes
        level := info.level
        isPresent := true
        type := info.type
        size := if info.type = .file then info.size else 0
        timeModified := info.timeModified
        versionId := info.versionId.map ByteStr.bytes } rfl rfl h₄
    refine ⟨r', ?_, hreading⟩
    rw [hread, ok_bind]
    unfold StorageInfo.received
    simp only [hlevel, decide_true, if_true, Bool.true_and, decide_eq_true_eq]
  · rw [if_neg hlevel] at h₄ ⊢
    refine ⟨r₄, ?_, h₄⟩
    unfold StorageInfo.received
    simp only [hlevel, decide_false, Bool.false_eq_true, if_false, Bool.false_and, ok_bind]

/-! ## The list that is received -/

/-- Does a level include what another one provides? -/
def StorageInfoLevel.Includes (level other : StorageInfoLevel) : Prop := other.toU32 ≤ level.toU32

/-- **The fields that the level defines are equal.** A size is that of a file
and a destination is that of a link; other entries are received without. -/
structure InfoSame (sent : StorageInfo ByteStr) (received : StorageInfo (List UInt8)) : Prop where
  name : received.name = sent.name.map ByteStr.bytes
  level : received.level = sent.level
  isPresent : received.isPresent = sent.isPresent
  type : sent.level.Includes .levelType → received.type = sent.type
  size : sent.level.Includes .levelBasic → received.size = if sent.type = .file then sent.size else 0
  timeModified : sent.level.Includes .levelBasic → received.timeModified = sent.timeModified
  versionId : sent.level.Includes .levelBasic → received.versionId = sent.versionId.map ByteStr.bytes
  mode : sent.level.Includes .levelDetail → received.mode = sent.mode
  userId : sent.level.Includes .levelDetail → received.userId = sent.userId
  groupId : sent.level.Includes .levelDetail → received.groupId = sent.groupId
  user : sent.level.Includes .levelDetail → received.user = sent.user.map ByteStr.bytes
  group : sent.level.Includes .levelDetail → received.group = sent.group.map ByteStr.bytes
  linkDestination : sent.level.Includes .levelDetail → received.linkDestination =
    if sent.type = .link then sent.linkDestination.map ByteStr.bytes else none

/-- The owners in a list are without zeros. -/
def OwnersPlain (ownerList : List (Option (List UInt8))) : Prop :=
  ∀ owner ∈ ownerList, owner.map strZ = owner

theorem strLstAddIfMissing_plain {ownerList : List (Option (List UInt8))} (h : OwnersPlain ownerList)
    (owner : Option ByteStr) :
    (strLstAddIfMissing ownerList (owner.map ByteStr.bytes)).1 = owner.map ByteStr.bytes ∧
      OwnersPlain (strLstAddIfMissing ownerList (owner.map ByteStr.bytes)).2 := by
  unfold strLstAddIfMissing
  rw [map_strZ_bytes]
  cases hfind : ownerList.find? (fun other => other.map strZ = owner.map ByteStr.bytes) with
  | none =>
    refine ⟨rfl, fun other hmem => ?_⟩
    rcases mem_append.mp hmem with hmem | hmem
    · exact h other hmem
    · rw [mem_singleton.mp hmem, map_strZ_bytes]
  | some found =>
    have hequal : found.map strZ = owner.map ByteStr.bytes := by simpa using find?_some hfind
    exact ⟨(h found (mem_of_find?_eq_some hfind)).symm.trans hequal, h⟩

/-- **An entry is stored as it was sent.** -/
theorem storageLstAdd_received {this : StorageList (List UInt8) level} (h : OwnersPlain this.ownerList)
    (entry : StorageListInfo ByteStr) :
    ∃ (this' : StorageList (List UInt8) level) (stored : StorageListInfo (List UInt8)),
      storageLstAdd this (storageLstGet level entry).received = .ok this' ∧
      this'.list = this.list ++ [stored] ∧ OwnersPlain this'.ownerList ∧
      InfoSame (storageLstGet level entry) (storageLstGet level stored) := by
  cases level with
  | levelDetail =>
    obtain ⟨huser, hplain⟩ := strLstAddIfMissing_plain h entry.user
    obtain ⟨hgroup, hplain'⟩ := strLstAddIfMissing_plain hplain entry.group
    refine ⟨_, _, rfl, rfl, hplain', ?_⟩
    exact {
      name := congrArg some (strZ_bytes entry.name)
      level := rfl
      isPresent := rfl
      type := fun _ => rfl
      size := fun _ => rfl
      timeModified := fun _ => rfl
      versionId := fun _ => map_strZ_bytes entry.versionId
      mode := fun _ => rfl
      userId := fun _ => rfl
      groupId := fun _ => rfl
      user := fun _ => huser
      group := fun _ => hgroup
      linkDestination := fun _ => by
        show Option.map strZ (if decide True && entry.type = .link then
            entry.linkDestination.map ByteStr.bytes else none)
          = if entry.type = .link then entry.linkDestination.map ByteStr.bytes else none
        simp only [decide_true, Bool.true_and, decide_eq_true_eq, apply_ite (Option.map strZ),
          map_strZ_bytes, Option.map_none] }
  | levelBasic =>
    refine ⟨_, _, rfl, rfl, h, ?_⟩
    exact {
      name := congrArg some (strZ_bytes entry.name)
      level := rfl
      isPresent := rfl
      type := fun _ => rfl
      size := fun _ => rfl
      timeModified := fun _ => rfl
      versionId := fun _ => map_strZ_bytes entry.versionId
      mode := fun _ => rfl
      userId := fun _ => rfl
      groupId := fun _ => rfl
      user := fun _ => rfl
      group := fun _ => rfl
      linkDestination := fun _ => (ite_self none).symm }
  | levelType =>
    refine ⟨_, _, rfl, rfl, h, ?_⟩
    exact {
      name := congrArg some (strZ_bytes entry.name)
      level := rfl
      isPresent := rfl
      type := fun _ => rfl
      size := fun _ => (ite_self 0).symm
      timeModified := fun _ => rfl
      versionId := fun _ => rfl
      mode := fun _ => rfl
      userId := fun _ => rfl
      groupId := fun _ => rfl
      user := fun _ => rfl
      group := fun _ => rfl
      linkDestination := fun _ => (ite_self none).symm }
  | levelExists =>
    refine ⟨_, _, rfl, rfl, h, ?_⟩
    exact {
      name := congrArg some (strZ_bytes entry.name)
      level := rfl
      isPresent := rfl
      type := fun _ => rfl
      size := fun _ => rfl
      timeModified := fun _ => rfl
      versionId := fun _ => rfl
      mode := fun _ => rfl
      userId := fun _ => rfl
      groupId := fun _ => rfl
      user := fun _ => rfl
      group := fun _ => rfl
      linkDestination := fun _ => rfl }

theorem level_storageLstGet {σ : Type} (level : StorageInfoLevel) (entry : StorageListInfo σ) :
    (storageLstGet level entry).level = level := by
  cases level <;> rfl

/-- **All entries are read**, in their order. -/
theorem storageRemoteListGet_ok (entries : List (StorageListInfo ByteStr))
    {data : StorageRemoteInfoProtocolWriteData} {parseData : StorageRemoteInfoData}
    {result : StorageList (List UInt8) level} {fuel : ℕ} (hsame : KeepSame level data parseData)
    (hplain : OwnersPlain result.ownerList) (hfuel : entries.length < fuel)
    (h : Reading (listCalls data (entries.map (storageLstGet level))) r) (hid : r.tagNextId = 0) :
    ∃ (result' : StorageList (List UInt8) level) (stored : List (StorageListInfo (List UInt8))),
      storageRemoteListGet fuel parseData result r = .ok result' ∧ result'.list = result.list ++ stored ∧
      List.Forall₂ InfoSame (entries.map (storageLstGet level)) (stored.map (storageLstGet level)) := by
  induction entries generalizing data parseData result fuel r with
  | nil =>
    obtain ⟨fuel, rfl⟩ := Nat.exists_eq_add_one.mpr hfuel
    obtain ⟨r', hnext⟩ := h.next_nil hid
    refine ⟨result, [], ?_, (append_nil _).symm, List.Forall₂.nil⟩
    unfold storageRemoteListGet
    rw [hnext, ok_bind]
    rfl
  | cons entry entries ih =>
    obtain ⟨fuel, rfl⟩ := Nat.exists_eq_add_one.mpr (Nat.zero_lt_of_lt hfuel)
    have hlevel := level_storageLstGet level entry
    rw [map_cons] at h
    -- the object, its fields and its end
    obtain ⟨r₁, hnext, h₁⟩ := h.next hid
    obtain ⟨r₂, hbegin, h₂⟩ := h₁.one .objBegin rfl
    obtain ⟨r₃, hname, h₃⟩ := h₂.str
    obtain ⟨r₄, hinfo, h₄⟩ := storageRemoteInfoGet_ok (hlevel.symm ▸ hsame) h₃
    obtain ⟨r₅, hend, h₅⟩ := h₄.one .objEnd rfl
    have hbegin : pckReadObjBegin r₁ 0 = .ok r₂ := by
      obtain ⟨r₂', hread, heq⟩ := ok_of_bind hbegin
      rw [hread, (ok_inj heq).2]
    have hend : pckReadObjEnd r₄ = .ok r₅ := by
      obtain ⟨r₅', hread, heq⟩ := ok_of_bind hend
      rw [hread, (ok_inj heq).2]
    obtain ⟨result₁, stored, hadd, hlist₁, hplain₁, hentry⟩ := @storageLstAdd_received level result hplain entry
    obtain ⟨result', storeds, hrest, hlist, hall⟩ := @ih r₅ (data.store (storageLstGet level entry))
      (parseData.store (storageLstGet level entry).received) result₁ fuel (hsame.store hlevel) hplain₁
      (Nat.lt_of_succ_lt_succ hfuel) h₅ (pckReadObjEnd_tagNextId hend)
    refine ⟨result', stored :: storeds, ?_, ?_, List.Forall₂.cons hentry hall⟩
    · rw [hlevel] at hinfo
      unfold storageRemoteListGet
      rw [hnext, ok_bind]
      dsimp only
      rw [if_pos rfl, hbegin, ok_bind, hname, ok_bind]
      rw [hinfo, ok_bind]
      rw [hadd, ok_bind, hend, ok_bind]
      exact hrest
    · rw [hlist, hlist₁, append_assoc, singleton_append]

/-! ## The whole way -/

def requestCalls (path : ByteStr) (level : StorageInfoLevel) (targetTime : Int64) : List PckWriteCall :=
  [.str (some path) false none, .u32 level.toU32 false 0, .time targetTime false 0]

theorem callsAllowed_requestCalls (path : ByteStr) (level : StorageInfoLevel) (targetTime : Int64) :
    CallsAllowed ((.obj, 0), []) (requestCalls path level targetTime) := by
  refine callsAllowed_fields ?_ ?_
  · simp [requestCalls, PckWriteCall.isField]
  · show 0 + 3 < 2 ^ 32 - 1 - 1
    decide

def responseCalls (list : Option (DriverList level)) : List PckWriteCall :=
  .bool list.isSome true 0 :: (match list with
    | some list => listCalls {} list.infos
    | none => [])

theorem callsAllowed_responseCalls (list : Option (DriverList level)) :
    CallsAllowed ((.obj, 0), []) (responseCalls list) := by
  refine ⟨((.obj, 1), []), rfl, ?_⟩
  cases list with
  | none => rfl
  | some list =>
    refine callsAllowed_listCalls _ _ ?_
    have hsize := list.size_le
    show 1 + (list.list.map (storageLstGet level)).length < 2 ^ 32 - 1 - 1
    rw [length_map]
    omega

theorem ofU32?_toU32 (level : StorageInfoLevel) : StorageInfoLevel.ofU32? level.toU32 = some level := by
  cases level <;> rfl

theorem storageRemoteListProtocol_ok (driver : StorageInterfaceList) (path : ByteStr)
    (level : StorageInfoLevel) (targetTime : Int64) :
    storageRemoteListProtocol driver (emitted [] .bottom (requestCalls path level targetTime))
      = .ok (emitted [] .bottom (responseCalls (driver path.bytes level targetTime))) := by
  have hreading := reading_emitted none (callsAllowed_requestCalls path level targetTime)
  unfold requestCalls at hreading
  obtain ⟨r₁, hpath, h₁⟩ := hreading.str
  obtain ⟨r₂, hlevel, h₂⟩ := h₁.u32
  obtain ⟨r₃, htime, -⟩ := h₂.time
  obtain ⟨w, w', hcalls, hend, hresult⟩ :=
    foldlM_pckWriteCall _ (callsAllowed_responseCalls (driver path.bytes level targetTime))
  unfold storageRemoteListProtocol requestCalls
  dsimp only
  rw [hpath, ok_bind]
  rw [hlevel, ok_bind]
  rw [htime, ok_bind]
  dsimp only [Option.map_some]
  rw [ofU32?_toU32]
  dsimp only
  cases hlist : driver path.bytes level targetTime with
  | none =>
    rw [hlist] at hcalls hresult
    obtain ⟨w₁, hbool, hnil⟩ := ok_of_bind hcalls
    have hbool : pckWriteBool (pckWriteNew none) false 0 true 0 = .ok w₁ := hbool
    cases hnil
    rw [Option.isSome_none, hbool, ok_bind]
    rw [pure_bind, hend, ok_bind, hresult]
  | some list =>
    rw [hlist] at hcalls hresult
    unfold responseCalls at hcalls
    rw [foldlM_cons] at hcalls
    obtain ⟨w₁, hbool, hlistPut⟩ := ok_of_bind hcalls
    have hbool : pckWriteBool (pckWriteNew none) true 0 true 0 = .ok w₁ := hbool
    rw [← storageRemoteListPut_eq] at hlistPut
    rw [Option.isSome_some, hbool, ok_bind]
    dsimp only
    rw [hlistPut, ok_bind, hend, ok_bind, hresult]

/-- **A list survives the protocol.** Whatever the driver of the remote returns
for a path, a level and a time, a list or that the path is missing: the same
entries are returned in the same order, with all fields that the level
defines. -/
theorem storageRemoteList_survives (driver : StorageInterfaceList) (path : ByteStr)
    (level : StorageInfoLevel) (targetTime : Int64) :
    ∃ result, storageRemoteList (storageRemoteListProtocol driver) path level targetTime = .ok result ∧
      Option.Rel
        (fun (sent : DriverList level) (received : StorageList (List UInt8) level) =>
          List.Forall₂ InfoSame sent.infos received.infos)
        (driver path.bytes level targetTime) result := by
  obtain ⟨w, w', hcalls, hend, hresult⟩ :=
    foldlM_pckWriteCall _ (callsAllowed_requestCalls path level targetTime)
  have hsend (f : PackWrite → Except Error (Option (StorageList (List UInt8) level))) : (do
      let write ← pckWriteStr (pckWriteNew none) (some path) 0 false none
      let write ← pckWriteU32 write level.toU32 0 false 0
      let write ← pckWriteTime write targetTime 0 false 0
      f write) = f w := by
    rw [← ok_bind w f, ← hcalls]
    unfold requestCalls
    simp only [foldlM_cons, foldlM_nil, pckWriteCall, bind_assoc, pure_bind]
  unfold storageRemoteList
  rw [hsend, hend, ok_bind, hresult, storageRemoteListProtocol_ok, ok_bind]
  obtain ⟨r, hfound, hreading, hid⟩ := Reading.boolStored
    (reading_emitted none (callsAllowed_responseCalls (driver path.bytes level targetTime)))
  have hfound : pckReadBool (pckReadNew none (emitted [] .bottom
      (responseCalls (driver path.bytes level targetTime)))) 0 0
      = .ok ((driver path.bytes level targetTime).isSome, r) := hfound
  rw [hfound, ok_bind]
  cases hlist : driver path.bytes level targetTime with
  | none => exact ⟨none, rfl, Option.Rel.none⟩
  | some list =>
    rw [hlist] at hreading
    have hreading : Reading (listCalls {} (list.list.map (storageLstGet level))) r := hreading
    have hfuel : list.list.length < r.bytes.length + 1 := by
      obtain ⟨s, -, -, hbefore, -⟩ := hreading.before hid
      have hcount := length_le_countP_listCalls (list.list.map (storageLstGet level)) {}
      have hlength := countP_objBegin_le [] (listCalls {} (list.list.map (storageLstGet level))) s
      rw [length_map] at hcount
      rw [hbefore.bytes]
      omega
    obtain ⟨result, stored, hget, hstored, hall⟩ := @storageRemoteListGet_ok level r list.list {} {}
      (storageLstNew level) _ ⟨rfl, fun _ => rfl⟩ (fun _ hmem => absurd hmem not_mem_nil) hfuel hreading hid
    refine ⟨some result, ?_, Option.Rel.some ?_⟩
    · dsimp only [Option.isSome_some]
      rw [if_pos rfl, hget, ok_bind]
    · unfold StorageList.infos
      rw [hstored]
      exact hall

end StorageRemote

end PgxBackup
