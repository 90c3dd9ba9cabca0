import Mathlib.Data.List.Induction
import PgxBackup.ManifestFilePack

/-!
# The file list of a manifest

Files are added to the list of a manifest and updated in it. Each is packed when
it is stored, with the owners replaced by strings that the manifest keeps, and
with the base time that the first file has set.

What is stored last under a name is what the file of that name unpacks to, as
long as no name is added twice: an update finds the first file of a name only.
-/

namespace PgxBackup

open List

/-- Copying a string into the memory of a manifest gives the address of a string
that says the same. -/
structure StringCopy (memory : StringMemory) where
  copy : List UInt64 → UInt64 → UInt64
  copy_at : ∀ ownerList owner, memory (copy ownerList owner) = memory owner

/-- What a manifest has for its files, and the base time of the process. -/
structure ManifestFileStore where
  manifest : ManifestFileDefault
  ownerList : List UInt64
  fileList : List ManifestFilePack
  manifestPackBaseTime : ℤ
  deriving DecidableEq, Repr

section Store

variable {memory : StringMemory} (strCopy : StringCopy memory)

/-- The string of the owner list that says what the owner says, which is added if
it is missing (`strLstAddIfMissing`). -/
def ownerAddIfMissing (ownerList : List UInt64) (owner : UInt64) : UInt64 × List UInt64 :=
  match ownerList.find? (memory · = memory owner) with
  | some cached => (cached, ownerList)
  | none => (strCopy.copy ownerList owner, ownerList ++ [strCopy.copy ownerList owner])

/-- `manifestOwnerCache`. -/
def manifestOwnerCache (ownerList : List UInt64) (null : Bool) (owner : UInt64) : UInt64 × List UInt64 :=
  if !null then ownerAddIfMissing strCopy ownerList owner else (owner, ownerList)

theorem memory_manifestOwnerCache (ownerList : List UInt64) (null : Bool) (owner : UInt64) :
    memory (manifestOwnerCache strCopy ownerList null owner).1 = memory owner := by
  unfold manifestOwnerCache ownerAddIfMissing
  cases null with
  | true => rfl
  | false =>
    cases hfind : ownerList.find? (memory · = memory owner) with
    | some cached =>
      have hequal : memory cached = memory owner := by simpa using find?_some hfind
      exact hequal
    | none => exact strCopy.copy_at ownerList owner

def ManifestFileOwned.cache (owned : ManifestFileOwned memory) (ownerList : List UInt64) :
    ManifestFileOwned memory × List UInt64 :=
  let user := manifestOwnerCache strCopy ownerList owned.file.user.isNone owned.user
  let group := manifestOwnerCache strCopy user.2 owned.file.group.isNone owned.group
  (⟨owned.file, user.1, group.1,
    fun owner howner => (memory_manifestOwnerCache strCopy ..).trans (owned.user_at owner howner),
    fun owner howner => (memory_manifestOwnerCache strCopy ..).trans (owned.group_at owner howner)⟩, group.2)

/-- **`manifestFileAdd`.** -/
def manifestFileAdd (store : ManifestFileStore) (owned : ManifestFileOwned memory) :
    Except Error ManifestFileStore := do
  let (owned, ownerList) := owned.cache strCopy store.ownerList
  let (manifestPackBaseTime, filePack) ← manifestFilePack store.manifest store.manifestPackBaseTime owned
  .ok
    { store with
      ownerList := ownerList
      fileList := store.fileList ++ [filePack]
      manifestPackBaseTime := manifestPackBaseTime }

/-- `manifestFilePackFindInternal`. The list is not sorted after a file was
added, so the first file of the name is found. -/
def manifestFilePackFindInternal (fileList : List ManifestFilePack) (name : Str) : Except Error ℕ :=
  match fileList.findIdx? (·.name = name) with
  | none => .error ⟨.assertError, "unable to find '".toList ++ name ++ "' in manifest file list".toList⟩
  | some idx => .ok idx

/-- **`manifestFileUpdate`.** -/
def manifestFileUpdate (store : ManifestFileStore) (owned : ManifestFileOwned memory) :
    Except Error ManifestFileStore := do
  let idx ← manifestFilePackFindInternal store.fileList owned.file.name
  let (manifestPackBaseTime, filePack) ← manifestFilePack store.manifest store.manifestPackBaseTime owned
  .ok
    { store with
      fileList := store.fileList.set idx filePack
      manifestPackBaseTime := manifestPackBaseTime }

/-- The calls that store files, and those that append to the reference list. -/
inductive ManifestFileCall (memory : StringMemory)
  | add (owned : ManifestFileOwned memory)
  | update (owned : ManifestFileOwned memory)
  | reference (backupLabel : Str)

def ManifestFileCall.stored : ManifestFileCall memory → Option ManifestFile
  | add owned => some owned.file
  | update owned => some owned.file
  | reference _ => none

/-- The name that a call adds to the list. -/
def ManifestFileCall.added : ManifestFileCall memory → Option Str
  | add owned => some owned.file.name
  | update _ => none
  | reference _ => none

def manifestFileCall (store : ManifestFileStore) : ManifestFileCall memory → Except Error ManifestFileStore
  | .add owned => manifestFileAdd strCopy store owned
  | .update owned => manifestFileUpdate store owned
  | .reference backupLabel =>
    .ok { store with manifest.referenceList := store.manifest.referenceList ++ [backupLabel] }

/-- The calls one after the other. -/
def manifestFileCalls (store : ManifestFileStore) (calls : List (ManifestFileCall memory)) :
    Except Error ManifestFileStore :=
  calls.foldlM (manifestFileCall strCopy) store

/-- **The last value stored for a name.** -/
def lastStored (calls : List (ManifestFileCall memory)) (name : Str) : Option ManifestFile :=
  ((calls.filterMap ManifestFileCall.stored).filter (·.name = name)).getLast?

end Store

/-! ## What is stored last is unpacked -/

section Stored

variable {memory : StringMemory} {strCopy : StringCopy memory} {store next : ManifestFileStore}
  {calls : List (ManifestFileCall memory)} {owned : ManifestFileOwned memory} {name : Str}

theorem lastStored_append (calls : List (ManifestFileCall memory)) (call : ManifestFileCall memory) (name : Str) :
    lastStored (calls ++ [call]) name
      = if call.stored.any (·.name = name) then call.stored else lastStored calls name := by
  unfold lastStored
  rw [filterMap_append, filter_append]
  cases hstored : call.stored with
  | none =>
    rw [filterMap_cons_none hstored, filterMap_nil, filter_nil, append_nil]
    rfl
  | some file =>
    rw [filterMap_cons_some hstored, filterMap_nil, Option.any_some]
    by_cases hname : file.name = name
    · rw [filter_cons_of_pos (by simpa using hname), filter_nil, getLast?_concat,
        if_pos (decide_eq_true hname)]
    · rw [filter_cons_of_neg (by simpa using hname), filter_nil, append_nil,
        if_neg (by simpa using hname)]

/-- A pack that unpacks to a file, also when references have been appended. -/
def UnpacksTo (memory : StringMemory) (manifest : ManifestFileDefault) (manifestPackBaseTime : ℤ)
    (filePack : ManifestFilePack) (file : ManifestFile) : Prop :=
  file.Packable manifestPackBaseTime → ∀ more,
    manifestFileUnpack memory { manifest with referenceList := manifest.referenceList ++ more }
      manifestPackBaseTime filePack = .ok file

/-- What holds between two calls: the base time is set once there is a file, the
names are those that were added, and each file unpacks to what was stored last. -/
structure ManifestFileStoreInv (memory : StringMemory) (manifestPackBaseTime : ℤ)
    (calls : List (ManifestFileCall memory)) (store : ManifestFileStore) : Prop where
  base : store.fileList ≠ [] → store.manifestPackBaseTime ≠ -1
  empty : store.fileList = [] →
    calls.filterMap ManifestFileCall.stored = [] ∧ store.manifestPackBaseTime = manifestPackBaseTime
  names : store.fileList.map (·.name) = calls.filterMap ManifestFileCall.added
  stored : ∀ filePack ∈ store.fileList, ∃ file, lastStored calls filePack.name = some file ∧
    UnpacksTo memory store.manifest store.manifestPackBaseTime filePack file

variable {base : ℤ}

theorem manifestPackBaseTimeNext_of_ne (h : base ≠ -1) (file : ManifestFile) :
    manifestPackBaseTimeNext base file = base := if_neg h

section

variable (h : ManifestFileStoreInv memory base calls store)
include h

theorem ManifestFileStoreInv.other {call : ManifestFileCall memory} {filePack : ManifestFilePack}
    (hmem : filePack ∈ store.fileList) (hother : ∀ file ∈ call.stored, file.name ≠ filePack.name) :
    ∃ file, lastStored (calls ++ [call]) filePack.name = some file ∧
      UnpacksTo memory store.manifest store.manifestPackBaseTime filePack file := by
  obtain ⟨file, hlast, hunpack⟩ := h.stored filePack hmem
  refine ⟨file, ?_, hunpack⟩
  rw [lastStored_append, if_neg]
  · exact hlast
  · intro hany
    obtain ⟨file', hfile', hname⟩ := (Option.any_eq_true ..).mp hany
    exact hother file' hfile' (of_decide_eq_true hname)

theorem ManifestFileStoreInv.add (hrefs : store.manifest.referenceList.length ≤ 2 ^ 32)
    (hnew : owned.file.name ∉ calls.filterMap ManifestFileCall.added)
    (hfirst : ∀ file ∈ ((calls ++ [ManifestFileCall.add owned]).filterMap ManifestFileCall.stored).head?,
      base = -1 → file.timestamp ≠ -1) (hok : manifestFileAdd strCopy store owned = .ok next) :
    ManifestFileStoreInv memory base (calls ++ [.add owned]) next := by
  obtain ⟨⟨base', filePack⟩, hpack, hnext⟩ := ok_of_bind hok
  obtain ⟨hbase, hname, hunpack⟩ := manifestFileUnpack_pack hrefs hpack
  cases hnext
  -- The base time is set by the first file.
  have hset : base' ≠ -1 := by
    rw [hbase]
    unfold manifestPackBaseTimeNext
    split
    · rename_i hunset
      by_cases hempty : store.fileList = []
      · obtain ⟨hstored, hsame⟩ := h.empty hempty
        refine hfirst owned.file ?_ (hsame ▸ hunset)
        rw [filterMap_append, hstored]
        rfl
      · exact absurd hunset (h.base hempty)
    · assumption
  refine ⟨fun _ => hset, fun hnil => absurd hnil (append_ne_nil_of_right_ne_nil _ (cons_ne_nil _ _)), ?_, ?_⟩
  · show (store.fileList ++ [filePack]).map _ = _
    rw [map_append, h.names, filterMap_append, map_singleton, hname]
    rfl
  · intro pack hmem
    rcases mem_append.mp hmem with hmem | hmem
    · have hkeep : base' = store.manifestPackBaseTime := by
        rw [hbase]
        exact manifestPackBaseTimeNext_of_ne (h.base (ne_nil_of_mem hmem)) _
      have hother : owned.file.name ≠ pack.name := by
        intro heq
        refine hnew ?_
        rw [← h.names, heq]
        exact mem_map_of_mem hmem
      show ∃ file, _ ∧ UnpacksTo memory store.manifest base' pack file
      rw [hkeep]
      exact h.other hmem fun file hfile => Option.some.inj hfile ▸ hother
    · rw [mem_singleton] at hmem
      subst hmem
      refine ⟨owned.file, ?_, hunpack⟩
      rw [lastStored_append]
      exact if_pos (decide_eq_true hname.symm)

theorem ManifestFileStoreInv.update (hrefs : store.manifest.referenceList.length ≤ 2 ^ 32)
    (hnodup : (calls.filterMap ManifestFileCall.added).Nodup)
    (hok : manifestFileUpdate store owned = .ok next) :
    ManifestFileStoreInv memory base (calls ++ [.update owned]) next := by
  obtain ⟨idx, hidx, hok⟩ := ok_of_bind hok
  obtain ⟨⟨base', filePack⟩, hpack, hnext⟩ := ok_of_bind hok
  obtain ⟨hbase, hname, hunpack⟩ := manifestFileUnpack_pack hrefs hpack
  cases hnext
  unfold manifestFilePackFindInternal at hidx
  cases hfind : store.fileList.findIdx? (·.name = owned.file.name) with
  | none =>
    rw [hfind] at hidx
    cases hidx
  | some idx' =>
    rw [hfind] at hidx
    obtain rfl := Except.ok.inj hidx
    obtain ⟨hlt, hfound, -⟩ := findIdx?_eq_some_iff_getElem.mp hfind
    have hfound : store.fileList[idx'].name = owned.file.name := of_decide_eq_true hfound
    have hne : store.fileList ≠ [] := ne_nil_of_length_pos (Nat.zero_lt_of_lt hlt)
    have hkeep : base' = store.manifestPackBaseTime := by
      rw [hbase]
      exact manifestPackBaseTimeNext_of_ne (h.base hne) _
    subst hkeep
    have hlength : (store.fileList.set idx' filePack).length = store.fileList.length := length_set
    refine ⟨fun _ => h.base hne, fun hnil => ?_, ?_, ?_⟩
    · have hnil : store.fileList.set idx' filePack = [] := hnil
      rw [hnil] at hlength
      exact absurd (length_eq_zero_iff.mp hlength.symm) hne
    · show (store.fileList.set idx' filePack).map _ = _
      rw [map_set, filterMap_append, ← h.names]
      have hsame : (store.fileList.map (·.name)).set idx' filePack.name = store.fileList.map (·.name) := by
        refine ext_getElem? fun j => ?_
        rw [getElem?_set]
        split
        · rename_i heq
          subst heq
          rw [length_map, if_pos hlt, getElem?_map, getElem?_eq_getElem hlt, Option.map_some, hname,
            hfound]
        · rfl
      rw [hsame]
      exact (append_nil _).symm
    · intro pack hmem
      obtain ⟨j, hj, rfl⟩ := getElem_of_mem hmem
      have hj' : j < store.fileList.length := hlength ▸ hj
      show ∃ file, lastStored _ (store.fileList.set idx' filePack)[j].name = _ ∧
        UnpacksTo memory store.manifest store.manifestPackBaseTime (store.fileList.set idx' filePack)[j] file
      by_cases heq : idx' = j
      · subst heq
        rw [getElem_set_self]
        refine ⟨owned.file, ?_, hunpack⟩
        rw [lastStored_append]
        exact if_pos (decide_eq_true hname.symm)
      · rw [getElem_set_ne heq]
        refine h.other (getElem_mem hj') fun file hfile hsame => heq ?_
        -- Two files of the same name are one.
        rw [← h.names] at hnodup
        have hitems : store.fileList[idx'] = store.fileList[j] := by
          refine inj_on_of_nodup_map hnodup (getElem_mem hlt) (getElem_mem hj') ?_
          rw [hfound, ← hsame, ← Option.some.inj hfile]
        exact hnodup.of_map.getElem_inj_iff.mp hitems

theorem ManifestFileStoreInv.reference (backupLabel : Str) :
    ManifestFileStoreInv memory base (calls ++ [.reference backupLabel])
      { store with manifest.referenceList := store.manifest.referenceList ++ [backupLabel] } := by
  refine ⟨h.base, fun hnil => ?_, ?_, fun filePack hmem => ?_⟩
  · obtain ⟨hstored, hbase⟩ := h.empty hnil
    refine ⟨?_, hbase⟩
    rw [filterMap_append, hstored]
    rfl
  · rw [filterMap_append]
    exact h.names.trans (append_nil _).symm
  · obtain ⟨file, hlast, hunpack⟩ : ∃ file,
        lastStored (calls ++ [ManifestFileCall.reference backupLabel]) filePack.name = some file ∧
          UnpacksTo memory store.manifest store.manifestPackBaseTime filePack file :=
      h.other hmem fun file hfile => absurd hfile nofun
    refine ⟨file, hlast, fun hpackable more => ?_⟩
    have hmore := hunpack hpackable (backupLabel :: more)
    rw [← hmore]
    show manifestFileUnpack memory { store.manifest with
      referenceList := store.manifest.referenceList ++ [backupLabel] ++ more } _ _ = _
    rw [append_assoc]
    rfl

end

theorem manifestFileCall_referenceList {call : ManifestFileCall memory}
    (hok : manifestFileCall strCopy store call = .ok next) :
    store.manifest.referenceList.length ≤ next.manifest.referenceList.length := by
  cases call with
  | add owned =>
    obtain ⟨_, -, hnext⟩ := ok_of_bind hok
    rw [← Except.ok.inj hnext]
  | update owned =>
    obtain ⟨_, -, hok⟩ := ok_of_bind hok
    obtain ⟨_, -, hnext⟩ := ok_of_bind hok
    rw [← Except.ok.inj hnext]
  | reference backupLabel =>
    rw [← Except.ok.inj hok]
    show _ ≤ (store.manifest.referenceList ++ [backupLabel]).length
    rw [length_append]
    exact Nat.le_add_right _ _

/-- **After any calls, each file unpacks to what was stored last.** -/
theorem manifestFileCalls_inv {start : ManifestFileStore} (hempty : start.fileList = [])
    (hadded : (calls.filterMap ManifestFileCall.added).Nodup)
    (hfirst : ∀ file ∈ (calls.filterMap ManifestFileCall.stored).head?,
      start.manifestPackBaseTime = -1 → file.timestamp ≠ -1)
    (hok : manifestFileCalls strCopy start calls = .ok store)
    (hrefs : store.manifest.referenceList.length ≤ 2 ^ 32) :
    ManifestFileStoreInv memory start.manifestPackBaseTime calls store := by
  induction calls using reverseRecOn generalizing store with
  | nil =>
    cases hok
    exact ⟨fun hne => absurd hempty hne, fun _ => ⟨rfl, rfl⟩, by rw [hempty]; rfl,
      fun filePack hmem => absurd (hempty ▸ hmem) not_mem_nil⟩
  | append_singleton calls call ih =>
    unfold manifestFileCalls at hok
    rw [foldlM_append] at hok
    obtain ⟨mid, hmid, hok⟩ := ok_of_bind hok
    rw [foldlM_cons] at hok
    obtain ⟨next, hcall, hnext⟩ := ok_of_bind hok
    cases hnext
    rw [filterMap_append] at hadded
    have hmidRefs := le_trans (manifestFileCall_referenceList hcall) hrefs
    have hmidFirst : ∀ file ∈ (calls.filterMap ManifestFileCall.stored).head?,
        start.manifestPackBaseTime = -1 → file.timestamp ≠ -1 := by
      intro file hfile
      refine hfirst file ?_
      rw [filterMap_append, head?_append, Option.mem_def.mp hfile]
      rfl
    have hinv := ih (nodup_append.mp hadded).1 hmidFirst hmid hmidRefs
    cases call with
    | add owned =>
      refine hinv.add hmidRefs (fun hmem => ?_) hfirst hcall
      exact (nodup_append.mp hadded).2.2 _ hmem _ (mem_singleton_self _) rfl
    | update owned => exact hinv.update hmidRefs (nodup_append.mp hadded).1 hcall
    | reference backupLabel =>
      cases hcall
      exact hinv.reference backupLabel

/-- **Unpacking undoes packing** over any calls that add no name twice: every file
of the list unpacks to the last value stored for its name, also after further
references have been appended. -/
theorem manifestFileUnpack_lastStored {start : ManifestFileStore} (hempty : start.fileList = [])
    (hadded : (calls.filterMap ManifestFileCall.added).Nodup)
    (hfirst : ∀ file ∈ (calls.filterMap ManifestFileCall.stored).head?,
      start.manifestPackBaseTime = -1 → file.timestamp ≠ -1)
    (hok : manifestFileCalls strCopy start calls = .ok store)
    (hrefs : store.manifest.referenceList.length ≤ 2 ^ 32) :
    ∀ filePack ∈ store.fileList, ∃ file, lastStored calls filePack.name = some file ∧
      (file.Packable store.manifestPackBaseTime → ∀ more,
        manifestFileUnpack memory
          { store.manifest with referenceList := store.manifest.referenceList ++ more }
          store.manifestPackBaseTime filePack = .ok file) :=
  (manifestFileCalls_inv hempty hadded hfirst hok hrefs).stored

end Stored

/-! ## A manifest with two files -/

/-- A memory in which the owners repeat every eight addresses. -/
def memorySample : StringMemory := fun address =>
  if address.toNat % 8 = 1 then "alice".toList else if address.toNat % 8 = 2 then "bob".toList else "postgres".toList

/-- A copy is eight addresses further. -/
def strCopySample : StringCopy memorySample where
  copy _ owner := owner + 8
  copy_at _ owner := by
    have hmod : (owner + 8).toNat % 8 = owner.toNat % 8 := by
      rw [UInt64.toNat_add]
      show (owner.toNat + 8) % 2 ^ 64 % 8 = _
      omega
    unfold memorySample
    rw [hmod]

/-- A file that has every field. -/
def manifestFileFull (name : Str) (size : ℕ) (timestamp : ℤ) (reference : Option Str) :
    ManifestFileOwned memorySample where
  file :=
    { name := name
      copy := true
      delta := false
      resume := true
      checksumPage := true
      checksumPageError := true
      mode := 0o640
      checksumSha1 := some (replicate 20 1)
      checksumRepoSha1 := some (replicate 20 2)
      checksumPageErrorList := some "[1,3]".toList
      user := some "alice".toList
      group := none
      reference := reference
      bundleId := 7
      bundleOffset := 300
      blockIncrSize := 16384
      blockIncrChecksumSize := 6
      blockIncrMapSize := 88
      size := size
      sizeOriginal := 8192
      sizeRepo := 2 ^ 64 - 1
      timestamp := timestamp }
  user := 1
  group := 0
  user_at := fun owner howner => by
    rw [← Option.some.inj howner]
    decide +kernel
  group_at := fun _ h => absurd h nofun

/-- A manifest without files. -/
def manifestFileStoreSample : ManifestFileStore where
  manifest := ⟨some "postgres".toList, some "postgres".toList, 0o600, ["20260101-000000F".toList]⟩
  ownerList := []
  fileList := []
  manifestPackBaseTime := -1

/-- The calls of a manifest with two files, one of which is updated. -/
def manifestFileCallsSample : List (ManifestFileCall memorySample) :=
  [.add (manifestFileFull "pg_data/PG_VERSION".toList 3 1700000000 none),
    .reference "20260102-000000F".toList,
    .add (manifestFileFull "pg_data/base/1/1".toList 8192 (-5) (some "20260102-000000F".toList)),
    .update (manifestFileFull "pg_data/PG_VERSION".toList (2 ^ 64 - 1) 1800000000 (some "20260101-000000F".toList))]

/-- The manifest after these calls. -/
def manifestFileStoreAfter : ManifestFileStore :=
  ((manifestFileCalls strCopySample manifestFileStoreSample manifestFileCallsSample).toOption).getD
    manifestFileStoreSample

/-- Files that have every field can be packed if size and timestamp can. -/
theorem manifestFileFull_packable {name : Str} {size : ℕ} {timestamp base : ℤ} {reference : Option Str}
    (hsize : size < 2 ^ 64) (htimestamp : -2 ^ 63 ≤ base - timestamp ∧ base - timestamp < 2 ^ 63) :
    (manifestFileFull name size timestamp reference).file.Packable base := by
  refine ⟨hsize, ?_, ?_, ?_, ?_, ?_, ?_, ?_, ?_, ?_, ?_, htimestamp, ?_, ?_, ?_⟩ <;> simp [manifestFileFull] <;>
    decide

/-- Both files of this manifest can be packed and unpack to what was stored
last. -/
theorem manifestFileUnpack_lastStored_two :
    manifestFileStoreAfter.fileList.length = 2 ∧
    ∀ filePack ∈ manifestFileStoreAfter.fileList, ∃ file,
      lastStored manifestFileCallsSample filePack.name = some file ∧
      file.Packable manifestFileStoreAfter.manifestPackBaseTime ∧ ∀ more,
        manifestFileUnpack memorySample
          { manifestFileStoreAfter.manifest with
            referenceList := manifestFileStoreAfter.manifest.referenceList ++ more }
          manifestFileStoreAfter.manifestPackBaseTime filePack = .ok file := by
  have hok : manifestFileCalls strCopySample manifestFileStoreSample manifestFileCallsSample
      = .ok manifestFileStoreAfter := by decide +kernel
  have hbase : manifestFileStoreAfter.manifestPackBaseTime = 1700000000 := by decide +kernel
  have hall := manifestFileUnpack_lastStored rfl (by decide +kernel) (by decide +kernel) hok (by decide +kernel)
  refine ⟨by decide +kernel, fun filePack hfilePack => ?_⟩
  obtain ⟨file, hlast, hunpack⟩ := hall filePack hfilePack
  have hpackable : file.Packable manifestFileStoreAfter.manifestPackBaseTime := by
    have hstored := mem_of_mem_filter (mem_of_getLast? hlast)
    rw [hbase]
    simp only [manifestFileCallsSample, ManifestFileCall.stored, filterMap_cons, filterMap_nil, mem_cons,
      not_mem_nil, or_false] at hstored
    obtain rfl | rfl | rfl := hstored
    · exact manifestFileFull_packable (by decide) (by decide)
    · exact manifestFileFull_packable (by decide) (by decide)
    · exact manifestFileFull_packable (by decide) (by decide)
  exact ⟨file, hlast, hpackable, hunpack hpackable⟩

/-- **Where a name is added twice**, the first file does not unpack to what was
stored last for its name. -/
theorem manifestFileUnpack_added_twice :
    let calls : List (ManifestFileCall memorySample) :=
      [.add (manifestFileFull "pg_data/PG_VERSION".toList 3 1700000000 none),
        .add (manifestFileFull "pg_data/PG_VERSION".toList 4 1700000000 none)]
    let store := ((manifestFileCalls strCopySample manifestFileStoreSample calls).toOption).getD
      manifestFileStoreSample
    manifestFileCalls strCopySample manifestFileStoreSample calls = .ok store ∧
    store.fileList.map (·.name) = ["pg_data/PG_VERSION".toList, "pg_data/PG_VERSION".toList] ∧
    (store.fileList.map fun filePack =>
      (manifestFileUnpack memorySample store.manifest store.manifestPackBaseTime filePack).map (·.size))
        = [.ok 3, .ok 4] ∧
    (lastStored calls "pg_data/PG_VERSION".toList).map (·.size) = some 4 := by
  refine ⟨?_, ?_, ?_, ?_⟩
  · decide +kernel
  · decide +kernel
  · decide +kernel
  · decide +kernel

end PgxBackup
