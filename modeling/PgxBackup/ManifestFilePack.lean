import PgxBackup.Flags
import PgxBackup.Manifest
import PgxBackup.Pack

/-!
# Files packed in memory

The manifest keeps its files packed. Flags say which fields a pack has, in front
of the fields themselves: sizes and other numbers as varint-128 values, the time
as a distance from a base time, the reference to a prior backup as an index of
the reference list and the owners as the addresses of strings. What equals a
default of the manifest is left out.

Strings are known by their address. A memory says what the string at an address
is; the strings that the manifest uses are there as long as the manifest is.
-/

namespace PgxBackup

open List

/-- The string at an address (`const String *`). -/
abbrev StringMemory := UInt64 → Str

/-- A file with the addresses of its owners, as it is passed to the functions
that store it. The addresses mean nothing where the owner is `NULL`. -/
structure ManifestFileOwned (memory : StringMemory) where
  file : ManifestFile
  user : UInt64
  group : UInt64
  user_at : ∀ owner ∈ file.user, memory user = owner
  group_at : ∀ owner ∈ file.group, memory group = owner

/-- What a manifest has for packing files: the defaults and the reference list. -/
structure ManifestFileDefault where
  fileUserDefault : Option Str
  fileGroupDefault : Option Str
  fileModeDefault : ℕ
  referenceList : List Str
  deriving DecidableEq, Repr

/-! ## The format -/

/-- Flags used to reduce the size of packed data (`ManifestFilePackFlag`). -/
inductive ManifestFilePackFlag
  | checksum
  | checksumRepo
  | reference
  | bundle
  | blockIncr
  | copy
  | delta
  | resume
  | checksumPage
  | checksumPageError
  | checksumPageErrorList
  | sizeOriginal
  | mode
  | user
  | userNull
  | group
  | groupNull
  deriving DecidableEq, Repr

namespace ManifestFilePackFlag

/-- All flags, in the order of their bits. -/
def all : List ManifestFilePackFlag :=
  [checksum, checksumRepo, reference, bundle, blockIncr, copy, delta, resume, checksumPage, checksumPageError,
    checksumPageErrorList, sizeOriginal, mode, user, userNull, group, groupNull]

def bit (flag : ManifestFilePackFlag) : ℕ := all.idxOf flag

def isSet (manifest : ManifestFileDefault) (file : ManifestFile) : ManifestFilePackFlag → Bool
  | checksum => file.checksumSha1.isSome
  | checksumRepo => file.checksumRepoSha1.isSome
  | copy => file.copy
  | delta => file.delta
  | resume => file.resume
  | checksumPage => file.checksumPage
  | checksumPageError => file.checksumPageError
  | checksumPageErrorList => file.checksumPageErrorList.isSome
  | reference => file.reference.isSome
  | bundle => file.bundleId ≠ 0
  | blockIncr => file.blockIncrSize ≠ 0
  | sizeOriginal => file.sizeOriginal ≠ file.size
  | mode => file.mode ≠ manifest.fileModeDefault
  | userNull => file.user = none
  | user => file.user ≠ none ∧ file.user ≠ manifest.fileUserDefault
  | groupNull => file.group = none
  | group => file.group ≠ none ∧ file.group ≠ manifest.fileGroupDefault

theorem mem_all (flag : ManifestFilePackFlag) : flag ∈ all := by
  cases flag <;> decide

theorem bit_injective : ∀ f ∈ all, ∀ g ∈ all, bit f = bit g → f = g := by decide +kernel

theorem bit_lt : ∀ f ∈ all, bit f < 17 := by decide +kernel

end ManifestFilePackFlag

/-- All block incremental sizes must be divisible by this factor. -/
def BLOCK_INCR_SIZE_FACTOR : ℕ := 8192

def HASH_TYPE_SHA1_SIZE : ℕ := 20

def manifestFilePackBufferSize : ℕ := 512

/-- The size and the alignment of `StringPub`. -/
def StringPub.size : ℕ := 16
def StringPub.align : ℕ := 8

/-- `ALIGN_OFFSET(StringPub, bytes)`. -/
def alignOffset (bytes : ℕ) : ℕ := StringPub.align - bytes % StringPub.align

/-- A packed file (`ManifestFilePack`): the string object of the name, the packed
fields behind it, and the string object of the error list with the offset that it
is at. -/
structure ManifestFilePack where
  name : Str
  data : List UInt8
  checksumPageErrorList : Option (ℕ × Str)
  deriving DecidableEq, Repr

/-! ## Packing -/

/-- Add a number to the buffer if a condition holds. -/
def packField (condition : Bool) (value : ℕ) (buffer : List UInt8) : Except Error (List UInt8) :=
  if condition then
    (cvtUInt64ToVarInt128 (manifestFilePackBufferSize - buffer.length) value).map (buffer ++ ·)
  else .ok buffer

/-- Add a checksum to the buffer if there is one. -/
def packChecksum (checksum : Option Bytes) (buffer : List UInt8) : List UInt8 :=
  match checksum with
  | none => buffer
  | some checksum => buffer ++ checksum.take HASH_TYPE_SHA1_SIZE

/-- `strLstFindIdxP` for a string that is required. -/
def strLstFindIdxRequired (list : List Str) (s : Str) : Except Error ℕ :=
  match list.findIdx? (· = s) with
  | none => .error ⟨.assertError, "unable to find '".toList ++ s ++ "' in string list".toList⟩
  | some idx => .ok idx

/-- Add the index of the reference to the buffer if there is one. -/
def packReference (referenceList : List Str) (reference : Option Str) (buffer : List UInt8) :
    Except Error (List UInt8) :=
  match reference with
  | none => .ok buffer
  | some reference => do
    let idx ← strLstFindIdxRequired referenceList reference
    packField true idx buffer

section Pack

variable {memory : StringMemory}

def manifestFilePackData (manifest : ManifestFileDefault) (manifestPackBaseTime : ℤ)
    (owned : ManifestFileOwned memory) : Except Error (List UInt8) := do
  let file := owned.file
  let set := ManifestFilePackFlag.isSet manifest file
  -- flags
  let buffer ← packField true (Flags.word ManifestFilePackFlag.bit set ManifestFilePackFlag.all) []
  -- size
  let buffer ← packField true file.size buffer
  -- original size
  let buffer ← packField (set .sizeOriginal) file.sizeOriginal buffer
  -- timestamp
  let buffer ← packField true (cvtInt64ToZigZag (manifestPackBaseTime - file.timestamp)) buffer
  -- checksums
  let buffer := packChecksum file.checksumSha1 buffer
  let buffer := packChecksum file.checksumRepoSha1 buffer
  -- reference
  let buffer ← packReference manifest.referenceList file.reference buffer
  -- mode
  let buffer ← packField (set .mode) file.mode buffer
  -- user/group
  let buffer ← packField (set .user) owned.user.toNat buffer
  let buffer ← packField (set .group) owned.group.toNat buffer
  -- repo size
  let buffer ← packField true file.sizeRepo buffer
  -- bundle
  let buffer ← packField (set .bundle) file.bundleId buffer
  let buffer ← packField (set .bundle) file.bundleOffset buffer
  -- block incremental
  let buffer ← packField (set .blockIncr) (file.blockIncrSize / BLOCK_INCR_SIZE_FACTOR) buffer
  let buffer ← packField (set .blockIncr) file.blockIncrChecksumSize buffer
  packField (set .blockIncr) file.blockIncrMapSize buffer

/-- The base time after a file is packed: the first timestamp that appears. -/
def manifestPackBaseTimeNext (manifestPackBaseTime : ℤ) (file : ManifestFile) : ℤ :=
  if manifestPackBaseTime = -1 then file.timestamp else manifestPackBaseTime

/-- **`manifestFilePack`.** -/
def manifestFilePack (manifest : ManifestFileDefault) (manifestPackBaseTime : ℤ)
    (owned : ManifestFileOwned memory) : Except Error (ℤ × ManifestFilePack) := do
  let manifestPackBaseTime := manifestPackBaseTimeNext manifestPackBaseTime owned.file
  let data ← manifestFilePackData manifest manifestPackBaseTime owned
  let nameSize := owned.file.name.length + 1
  .ok (manifestPackBaseTime,
    { name := owned.file.name
      data := data
      checksumPageErrorList := owned.file.checksumPageErrorList.map fun list =>
        (StringPub.size + nameSize + data.length + alignOffset (nameSize + data.length), list) })

/-! ## Unpacking -/

/-- Read a number if a condition holds. -/
def unpackField (condition : Bool) (default : ℕ) (data : List UInt8) : Except Error (ℕ × List UInt8) :=
  if condition then cvtUInt64FromVarInt128 data else .ok (default, data)

/-- Read a checksum if a condition holds. -/
def unpackChecksum (condition : Bool) (data : List UInt8) : Option Bytes × List UInt8 :=
  if condition then (some (data.take HASH_TYPE_SHA1_SIZE), data.drop HASH_TYPE_SHA1_SIZE) else (none, data)

/-- Read the index of a reference if a condition holds. -/
def unpackReference (referenceList : List Str) (condition : Bool) (data : List UInt8) :
    Except Error (Option Str × List UInt8) :=
  if condition then do
    let (idx, data) ← cvtUInt64FromVarInt128 data
    let reference ← lstGet referenceList (u32 idx)
    .ok (some reference, data)
  else .ok (none, data)

def unpackOwner (memory : StringMemory) (stored null : Bool) (address : ℕ) (default : Option Str) : Option Str :=
  if stored then some (memory (UInt64.ofNat address)) else if !null then default else none

/-- **`manifestFileUnpack`.** -/
def manifestFileUnpack (memory : StringMemory) (manifest : ManifestFileDefault) (manifestPackBaseTime : ℤ)
    (filePack : ManifestFilePack) : Except Error ManifestFile := do
  let (flag, data) ← cvtUInt64FromVarInt128 filePack.data
  let set (f : ManifestFilePackFlag) : Bool := flag.testBit f.bit
  let (size, data) ← cvtUInt64FromVarInt128 data
  let (sizeOriginal, data) ← unpackField (set .sizeOriginal) size data
  let (delta, data) ← cvtUInt64FromVarInt128 data
  let (checksumSha1, data) := unpackChecksum (set .checksum) data
  let (checksumRepoSha1, data) := unpackChecksum (set .checksumRepo) data
  let (reference, data) ← unpackReference manifest.referenceList (set .reference) data
  let (mode, data) ← unpackField (set .mode) manifest.fileModeDefault data
  let (user, data) ← unpackField (set .user) 0 data
  let (group, data) ← unpackField (set .group) 0 data
  let (sizeRepo, data) ← cvtUInt64FromVarInt128 data
  let (bundleId, data) ← unpackField (set .bundle) 0 data
  let (bundleOffset, data) ← unpackField (set .bundle) 0 data
  let (blockIncrSize, data) ← unpackField (set .blockIncr) 0 data
  let (blockIncrChecksumSize, data) ← unpackField (set .blockIncr) 0 data
  let (blockIncrMapSize, data) ← unpackField (set .blockIncr) 0 data
  -- the position behind the fields
  let bufferPos := StringPub.size + filePack.name.length + 1 + (filePack.data.length - data.length)
  .ok
    { name := filePack.name
      copy := set .copy
      delta := set .delta
      resume := set .resume
      checksumPage := set .checksumPage
      checksumPageError := set .checksumPageError
      mode := u32 mode
      checksumSha1 := checksumSha1
      checksumRepoSha1 := checksumRepoSha1
      checksumPageErrorList :=
        if set .checksumPageErrorList then
          (filePack.checksumPageErrorList.filter (·.1 = bufferPos + alignOffset bufferPos)).map Prod.snd
        else none
      user := unpackOwner memory (set .user) (set .userNull) user manifest.fileUserDefault
      group := unpackOwner memory (set .group) (set .groupNull) group manifest.fileGroupDefault
      reference := reference
      bundleId := bundleId
      bundleOffset := bundleOffset
      blockIncrSize := u64 (blockIncrSize * BLOCK_INCR_SIZE_FACTOR)
      blockIncrChecksumSize := blockIncrChecksumSize
      blockIncrMapSize := blockIncrMapSize
      size := size
      sizeOriginal := sizeOriginal
      sizeRepo := sizeRepo
      timestamp := manifestPackBaseTime - cvtInt64FromZigZag delta }

end Pack

/-! ## One field -/

section Field

variable {value n : ℕ} {condition : Bool} {buffer data rest : List UInt8}

section

variable (h : value < 2 ^ 64)
include h

theorem length_varInt : (varInt value).length ≤ 10 :=
  Base128.length_encode (ioWriteVarIntU64_ok h)

theorem length_varIntIf : (varIntIf condition value).length ≤ 10 := by
  unfold varIntIf
  split
  · exact length_varInt h
  · exact Nat.zero_le _

/-- A number is packed as long as there are ten bytes left. -/
theorem packField_ok (hroom : buffer.length + 10 ≤ manifestFilePackBufferSize) :
    packField condition value buffer = .ok (buffer ++ varIntIf condition value) := by
  unfold packField varIntIf
  split
  · have hfits : CVT_VARINT128_BUFFER_SIZE ≤ manifestFilePackBufferSize - buffer.length :=
      Nat.le_sub_of_add_le (Nat.add_comm _ _ ▸ hroom)
    have hencode : cvtUInt64ToVarInt128 (manifestFilePackBufferSize - buffer.length) value = .ok (varInt value) :=
      Base128.encode_of_le (ioWriteVarIntU64_ok h) hfits
    rw [hencode]
    rfl
  · rw [append_nil]

theorem cvtUInt64FromVarInt128_varIntIf (rest : List UInt8) :
    cvtUInt64FromVarInt128 (varIntIf true value ++ rest) = .ok (value, rest) := cvtUInt64FromVarInt128_varInt h rest

/-- What was packed under a condition is read back under it. -/
theorem unpackField_varIntIf (default : ℕ) (rest : List UInt8) :
    unpackField condition default (varIntIf condition value ++ rest)
      = .ok (if condition then value else default, rest) := by
  cases condition with
  | true => exact cvtUInt64FromVarInt128_varInt h rest
  | false => rfl

end

def packedChecksum (checksum : Option Bytes) : List UInt8 := checksum.getD []

theorem packChecksum_eq {checksum : Option Bytes} (h : ∀ c ∈ checksum, c.length = HASH_TYPE_SHA1_SIZE) :
    packChecksum checksum buffer = buffer ++ packedChecksum checksum ∧ (packedChecksum checksum).length ≤ 20 := by
  cases checksum with
  | none => exact ⟨(append_nil _).symm, Nat.zero_le _⟩
  | some c =>
    have hlength := h c rfl
    refine ⟨?_, hlength.le⟩
    show buffer ++ c.take HASH_TYPE_SHA1_SIZE = buffer ++ c
    rw [take_of_length_le hlength.le]

theorem unpackChecksum_packedChecksum {checksum : Option Bytes}
    (h : ∀ c ∈ checksum, c.length = HASH_TYPE_SHA1_SIZE) (rest : List UInt8) :
    unpackChecksum checksum.isSome (packedChecksum checksum ++ rest) = (checksum, rest) := by
  cases checksum with
  | none => rfl
  | some c =>
    show (some ((c ++ rest).take HASH_TYPE_SHA1_SIZE), (c ++ rest).drop HASH_TYPE_SHA1_SIZE) = _
    rw [take_left' (h c rfl), drop_left' (h c rfl)]

/-- **A reference that is packed stands at its index**, whatever is appended to
the list later. -/
theorem strLstFindIdxRequired_ok {referenceList : List Str} {s : Str} {idx : ℕ}
    (h : strLstFindIdxRequired referenceList s = .ok idx) (more : List Str) :
    idx < referenceList.length ∧ lstGet (referenceList ++ more) idx = .ok s := by
  unfold strLstFindIdxRequired at h
  cases hfind : referenceList.findIdx? (· = s) with
  | none =>
    rw [hfind] at h
    cases h
  | some idx' =>
    rw [hfind] at h
    obtain rfl := Except.ok.inj h
    obtain ⟨hlt, hs, -⟩ := findIdx?_eq_some_iff_getElem.mp hfind
    refine ⟨hlt, ?_⟩
    have hget : (referenceList ++ more)[idx']? = some s := by
      rw [getElem?_append_left hlt, getElem?_eq_getElem hlt, of_decide_eq_true hs]
    unfold lstGet
    rw [hget]

end Field

/-! ## A whole file -/

/-- What a file must be so that nothing is lost when it is packed: the numbers
are in the range of their types, the time is not too far from the base time, and
a field that is left out has its default. -/
structure ManifestFile.Packable (manifestPackBaseTime : ℤ) (file : ManifestFile) : Prop where
  size : file.size < 2 ^ 64
  sizeOriginal : file.sizeOriginal < 2 ^ 64
  sizeRepo : file.sizeRepo < 2 ^ 64
  bundleId : file.bundleId < 2 ^ 64
  bundleOffset : file.bundleOffset < 2 ^ 64
  blockIncrSize : file.blockIncrSize < 2 ^ 64
  blockIncrChecksumSize : file.blockIncrChecksumSize < 2 ^ 64
  blockIncrMapSize : file.blockIncrMapSize < 2 ^ 64
  mode : file.mode < 2 ^ 32
  checksumSha1 : ∀ c ∈ file.checksumSha1, c.length = HASH_TYPE_SHA1_SIZE
  checksumRepoSha1 : ∀ c ∈ file.checksumRepoSha1, c.length = HASH_TYPE_SHA1_SIZE
  timestamp : -2 ^ 63 ≤ manifestPackBaseTime - file.timestamp ∧ manifestPackBaseTime - file.timestamp < 2 ^ 63
  blockIncrFactor : file.blockIncrSize % BLOCK_INCR_SIZE_FACTOR = 0
  bundleNone : file.bundleId = 0 → file.bundleOffset = 0
  blockIncrNone : file.blockIncrSize = 0 → file.blockIncrChecksumSize = 0 ∧ file.blockIncrMapSize = 0

section File

variable {memory : StringMemory} {manifest : ManifestFileDefault} {base : ℤ} {owned : ManifestFileOwned memory}

def packFlag (manifest : ManifestFileDefault) (file : ManifestFile) : ℕ :=
  Flags.word ManifestFilePackFlag.bit (ManifestFilePackFlag.isSet manifest file) ManifestFilePackFlag.all

section

variable (manifest : ManifestFileDefault) (file : ManifestFile)

theorem packFlag_lt : packFlag manifest file < 2 ^ 64 :=
  lt_of_lt_of_le (Flags.word_lt ManifestFilePackFlag.bit_lt) (Nat.pow_le_pow_right (by decide) (by decide))

theorem testBit_packFlag (f : ManifestFilePackFlag) :
    (packFlag manifest file).testBit f.bit = f.isSet manifest file :=
  Flags.testBit_word ManifestFilePackFlag.bit_injective f.mem_all

end

/-- The fields of a file one after the other, from the reference on. -/
def packedBehindReference (manifest : ManifestFileDefault) (owned : ManifestFileOwned memory) : List UInt8 :=
  let file := owned.file
  let set := ManifestFilePackFlag.isSet manifest file
  varIntIf (set .mode) file.mode ++ (varIntIf (set .user) owned.user.toNat ++
    (varIntIf (set .group) owned.group.toNat ++ (varIntIf true file.sizeRepo ++
      (varIntIf (set .bundle) file.bundleId ++ (varIntIf (set .bundle) file.bundleOffset ++
        (varIntIf (set .blockIncr) (file.blockIncrSize / BLOCK_INCR_SIZE_FACTOR) ++
          (varIntIf (set .blockIncr) file.blockIncrChecksumSize ++
            varIntIf (set .blockIncr) file.blockIncrMapSize)))))))

/-- The fields of a file one after the other, behind the flags. -/
def packedBehindFlag (manifest : ManifestFileDefault) (base : ℤ) (owned : ManifestFileOwned memory) (idx : ℕ) :
    List UInt8 :=
  let file := owned.file
  let set := ManifestFilePackFlag.isSet manifest file
  varIntIf true file.size ++ (varIntIf (set .sizeOriginal) file.sizeOriginal ++
    (varIntIf true (cvtInt64ToZigZag (base - file.timestamp)) ++ (packedChecksum file.checksumSha1 ++
      (packedChecksum file.checksumRepoSha1 ++ (varIntIf (set .reference) idx ++
        packedBehindReference manifest owned)))))

/-- The flags and the fields of a file. -/
def packedData (manifest : ManifestFileDefault) (base : ℤ) (owned : ManifestFileOwned memory) (idx : ℕ) :
    List UInt8 :=
  varIntIf true (packFlag manifest owned.file) ++ packedBehindFlag manifest base owned idx

variable {k idx : ℕ} {reference : Option Str}

/-- A number takes ten bytes of the buffer at most. -/
theorem packField_step {value : ℕ} (condition : Bool) {buffer : List UInt8} (h : value < 2 ^ 64)
    (hlength : buffer.length ≤ k) (hk : k + 10 ≤ manifestFilePackBufferSize) :
    packField condition value buffer = .ok (buffer ++ varIntIf condition value) ∧
      (buffer ++ varIntIf condition value).length ≤ k + 10 := by
  refine ⟨packField_ok h (le_trans (Nat.add_le_add_right hlength 10) hk), ?_⟩
  rw [length_append]
  exact Nat.add_le_add hlength (length_varIntIf h)

theorem packChecksum_step {checksum : Option Bytes} {buffer : List UInt8}
    (h : ∀ c ∈ checksum, c.length = HASH_TYPE_SHA1_SIZE) (hlength : buffer.length ≤ k) :
    packChecksum checksum buffer = buffer ++ packedChecksum checksum ∧
      (buffer ++ packedChecksum checksum).length ≤ k + 20 := by
  refine ⟨(packChecksum_eq h).1, ?_⟩
  rw [length_append]
  exact Nat.add_le_add hlength (@packChecksum_eq buffer checksum h).2

theorem cvtInt64ToZigZag_lt' (x : ℤ) : cvtInt64ToZigZag x < 2 ^ 64 := BitVec.isLt _

/-- The index of a reference, or zero if there is none. -/
def referenceIdx (referenceList : List Str) (reference : Option Str) : Except Error ℕ :=
  match reference with
  | none => .ok 0
  | some reference => strLstFindIdxRequired referenceList reference

theorem referenceIdx_lt (hrefs : manifest.referenceList.length ≤ 2 ^ 32)
    (h : referenceIdx manifest.referenceList reference = .ok idx) : idx < 2 ^ 32 := by
  cases reference with
  | none =>
    cases h
    decide
  | some s => exact lt_of_lt_of_le (strLstFindIdxRequired_ok h []).1 hrefs

theorem packReference_step {buffer : List UInt8}
    (hidx : referenceIdx manifest.referenceList reference = .ok idx) (hlt : idx < 2 ^ 32)
    (hlength : buffer.length ≤ k) (hk : k + 10 ≤ manifestFilePackBufferSize) :
    packReference manifest.referenceList reference buffer = .ok (buffer ++ varIntIf reference.isSome idx) ∧
      (buffer ++ varIntIf reference.isSome idx).length ≤ k + 10 := by
  obtain ⟨hstep, hstep'⟩ := packField_step reference.isSome (hlt.trans (by decide)) hlength hk
  refine ⟨?_, hstep'⟩
  cases reference with
  | none => exact hstep
  | some s =>
    have hidx : strLstFindIdxRequired manifest.referenceList s = .ok idx := hidx
    show (strLstFindIdxRequired manifest.referenceList s >>= fun idx => packField true idx buffer) = _
    rw [hidx]
    exact hstep

theorem packReference_error {error : Error}
    (h : referenceIdx manifest.referenceList reference = .error error) (buffer : List UInt8) :
    packReference manifest.referenceList reference buffer = .error error := by
  cases reference with
  | none => cases h
  | some s =>
    have h : strLstFindIdxRequired manifest.referenceList s = .error error := h
    show (strLstFindIdxRequired manifest.referenceList s >>= fun idx => packField true idx buffer) = _
    rw [h]
    rfl

/-- **The buffer has room for every file**: all that can be missing is the
reference. -/
theorem manifestFilePackData_eq (h : owned.file.Packable base) (hrefs : manifest.referenceList.length ≤ 2 ^ 32) :
    manifestFilePackData manifest base owned
      = (referenceIdx manifest.referenceList owned.file.reference).map (packedData manifest base owned) := by
  have hmode : owned.file.mode < 2 ^ 64 := h.mode.trans (by decide)
  have hblock : owned.file.blockIncrSize / BLOCK_INCR_SIZE_FACTOR < 2 ^ 64 :=
    lt_of_le_of_lt (Nat.div_le_self _ _) h.blockIncrSize
  have hdelta := cvtInt64ToZigZag_lt' (base - owned.file.timestamp)
  have huser : owned.user.toNat < 2 ^ 64 := owned.user.toNat_lt
  have hgroup : owned.group.toNat < 2 ^ 64 := owned.group.toNat_lt
  have hflag := packFlag_lt manifest owned.file
  unfold manifestFilePackData
  dsimp only
  obtain ⟨e, l⟩ := packField_step true hflag (length_nil (α := UInt8)).le (by decide)
  change (packField true (packFlag manifest owned.file) [] >>= _) = _
  rw [e, ok_bind]
  obtain ⟨e, l⟩ := packField_step true h.size l (by decide)
  rw [e, ok_bind]
  obtain ⟨e, l⟩ := packField_step (ManifestFilePackFlag.isSet manifest owned.file .sizeOriginal) h.sizeOriginal l
    (by decide)
  rw [e, ok_bind]
  obtain ⟨e, l⟩ := packField_step true hdelta l (by decide)
  rw [e, ok_bind]
  obtain ⟨e, l⟩ := packChecksum_step h.checksumSha1 l
  rw [e]
  obtain ⟨e, l⟩ := packChecksum_step h.checksumRepoSha1 l
  rw [e]
  cases hidx : referenceIdx manifest.referenceList owned.file.reference with
  | error error =>
    rw [packReference_error hidx]
    rfl
  | ok idx =>
    obtain ⟨e, l⟩ := packReference_step hidx (referenceIdx_lt hrefs hidx) l (by decide)
    rw [e, ok_bind]
    obtain ⟨e, l⟩ := packField_step (ManifestFilePackFlag.isSet manifest owned.file .mode) hmode l (by decide)
    rw [e, ok_bind]
    obtain ⟨e, l⟩ := packField_step (ManifestFilePackFlag.isSet manifest owned.file .user) huser l (by decide)
    rw [e, ok_bind]
    obtain ⟨e, l⟩ := packField_step (ManifestFilePackFlag.isSet manifest owned.file .group) hgroup l (by decide)
    rw [e, ok_bind]
    obtain ⟨e, l⟩ := packField_step true h.sizeRepo l (by decide)
    rw [e, ok_bind]
    obtain ⟨e, l⟩ := packField_step (ManifestFilePackFlag.isSet manifest owned.file .bundle) h.bundleId l
      (by decide)
    rw [e, ok_bind]
    obtain ⟨e, l⟩ := packField_step (ManifestFilePackFlag.isSet manifest owned.file .bundle) h.bundleOffset l
      (by decide)
    rw [e, ok_bind]
    obtain ⟨e, l⟩ := packField_step (ManifestFilePackFlag.isSet manifest owned.file .blockIncr) hblock l
      (by decide)
    rw [e, ok_bind]
    obtain ⟨e, l⟩ := packField_step (ManifestFilePackFlag.isSet manifest owned.file .blockIncr)
      h.blockIncrChecksumSize l (by decide)
    rw [e, ok_bind]
    obtain ⟨e, l⟩ := packField_step (ManifestFilePackFlag.isSet manifest owned.file .blockIncr)
      h.blockIncrMapSize l (by decide)
    rw [e]
    refine congrArg Except.ok ?_
    simp only [nil_append, append_assoc]
    rfl

/-- A reference is read back, whatever is appended to the list later. -/
theorem unpackReference_ok (hidx : idx < 2 ^ 32)
    (hfind : referenceIdx manifest.referenceList reference = .ok idx) (more : List Str) (rest : List UInt8) :
    unpackReference (manifest.referenceList ++ more) reference.isSome (varIntIf reference.isSome idx ++ rest)
      = .ok (reference, rest) := by
  cases reference with
  | none => rfl
  | some s =>
    show (cvtUInt64FromVarInt128 (varInt idx ++ rest) >>= fun (idx, data) =>
      lstGet (manifest.referenceList ++ more) (u32 idx) >>= fun reference => .ok (some reference, data)) = _
    rw [cvtUInt64FromVarInt128_varInt (hidx.trans (by decide)) rest, ok_bind]
    show lstGet (manifest.referenceList ++ more) (u32 idx) >>= _ = _
    rw [u32_of_lt hidx, (strLstFindIdxRequired_ok hfind more).2]
    rfl

theorem unpackOwner_eq {owner default : Option Str} {address : UInt64}
    (hmemory : ∀ s ∈ owner, memory address = s) (unused : ℕ) :
    unpackOwner memory (owner ≠ none ∧ owner ≠ default : Bool) (owner = none : Bool)
      (if (owner ≠ none ∧ owner ≠ default : Bool) then address.toNat else unused) default = owner := by
  unfold unpackOwner
  cases owner with
  | none => rfl
  | some s =>
    by_cases hdefault : some s = default
    · have hstored : (decide (some s ≠ none ∧ some s ≠ default)) = false := decide_eq_false fun h => h.2 hdefault
      rw [hstored]
      exact hdefault.symm
    · have hstored : (decide (some s ≠ none ∧ some s ≠ default)) = true :=
        decide_eq_true ⟨Option.some_ne_none s, hdefault⟩
      rw [hstored, if_pos rfl, if_pos rfl, UInt64.ofNat_toNat, hmemory s rfl]

theorem alignOffset_size (bytes : ℕ) : alignOffset (StringPub.size + bytes) = alignOffset bytes := by
  unfold alignOffset StringPub.align StringPub.size
  omega

theorem unpackErrorList_eq (errorList : Option Str) (nameSize dataSize : ℕ) :
    (if errorList.isSome = true then
      (Option.filter (fun list : ℕ × Str =>
          list.1 = StringPub.size + nameSize + 1 + (dataSize - ([] : List UInt8).length)
            + alignOffset (StringPub.size + nameSize + 1 + (dataSize - ([] : List UInt8).length)))
        (errorList.map fun list =>
          (StringPub.size + (nameSize + 1) + dataSize + alignOffset (nameSize + 1 + dataSize), list))).map Prod.snd
      else none) = errorList := by
  cases errorList with
  | none => rfl
  | some list =>
    have hpos : StringPub.size + nameSize + 1 + (dataSize - ([] : List UInt8).length)
        = StringPub.size + (nameSize + 1 + dataSize) := by
      rw [length_nil, Nat.sub_zero]
      omega
    rw [hpos, alignOffset_size, Option.isSome_some, if_pos rfl, Option.map_some, Option.filter_some,
      if_pos (decide_eq_true (by rw [Nat.add_assoc StringPub.size])), Option.map_some]

theorem stored_or_default (value default : ℕ) : (if decide (value ≠ default) = true then value else default) = value := by
  split
  · rfl
  · rename_i h
    exact (not_not.mp fun hne => h (decide_eq_true hne)).symm

/-- **A packed file is unpacked as it was**, also when references have been
appended to the list. -/
theorem manifestFileUnpack_packedData (h : owned.file.Packable base) (hidx : idx < 2 ^ 32)
    (hfind : referenceIdx manifest.referenceList owned.file.reference = .ok idx) (more : List Str) :
    manifestFileUnpack memory { manifest with referenceList := manifest.referenceList ++ more } base
      { name := owned.file.name
        data := packedData manifest base owned idx
        checksumPageErrorList := owned.file.checksumPageErrorList.map fun list =>
          (StringPub.size + (owned.file.name.length + 1) + (packedData manifest base owned idx).length
            + alignOffset (owned.file.name.length + 1 + (packedData manifest base owned idx).length), list) }
      = .ok owned.file := by
  have hmode : owned.file.mode < 2 ^ 64 := h.mode.trans (by decide)
  have hblock : owned.file.blockIncrSize / BLOCK_INCR_SIZE_FACTOR < 2 ^ 64 :=
    lt_of_le_of_lt (Nat.div_le_self _ _) h.blockIncrSize
  have hdelta := cvtInt64ToZigZag_lt' (base - owned.file.timestamp)
  have huser : owned.user.toNat < 2 ^ 64 := owned.user.toNat_lt
  have hgroup : owned.group.toNat < 2 ^ 64 := owned.group.toNat_lt
  have hflag := packFlag_lt manifest owned.file
  have hlast : unpackField (ManifestFilePackFlag.isSet manifest owned.file .blockIncr) 0
        (varIntIf (ManifestFilePackFlag.isSet manifest owned.file .blockIncr) owned.file.blockIncrMapSize)
      = .ok (if ManifestFilePackFlag.isSet manifest owned.file .blockIncr then owned.file.blockIncrMapSize
        else 0, []) := by
    have hread := @unpackField_varIntIf _ (ManifestFilePackFlag.isSet manifest owned.file .blockIncr)
      h.blockIncrMapSize 0 []
    rwa [append_nil] at hread
  have hread := cvtUInt64FromVarInt128_varIntIf hflag (packedBehindFlag manifest base owned idx)
  have hsha1 (rest : List UInt8) : unpackChecksum (ManifestFilePackFlag.isSet manifest owned.file .checksum)
      (packedChecksum owned.file.checksumSha1 ++ rest) = (owned.file.checksumSha1, rest) :=
    unpackChecksum_packedChecksum h.checksumSha1 rest
  have hrepo (rest : List UInt8) : unpackChecksum (ManifestFilePackFlag.isSet manifest owned.file .checksumRepo)
      (packedChecksum owned.file.checksumRepoSha1 ++ rest) = (owned.file.checksumRepoSha1, rest) :=
    unpackChecksum_packedChecksum h.checksumRepoSha1 rest
  have hreference : unpackReference (manifest.referenceList ++ more)
        (ManifestFilePackFlag.isSet manifest owned.file .reference)
        (varIntIf (ManifestFilePackFlag.isSet manifest owned.file .reference) idx
          ++ packedBehindReference manifest owned)
      = .ok (owned.file.reference, packedBehindReference manifest owned) :=
    unpackReference_ok hidx hfind more (packedBehindReference manifest owned)
  generalize hdata : packedData manifest base owned idx = data
  have hread : cvtUInt64FromVarInt128 data
      = .ok (packFlag manifest owned.file, packedBehindFlag manifest base owned idx) := hdata ▸ hread
  unfold manifestFileUnpack
  rw [hread, ok_bind]
  simp only [testBit_packFlag]
  unfold packedBehindFlag
  rw [cvtUInt64FromVarInt128_varIntIf h.size, ok_bind]
  rw [unpackField_varIntIf h.sizeOriginal, ok_bind]
  rw [cvtUInt64FromVarInt128_varIntIf hdelta, ok_bind]
  rw [hsha1]
  rw [hrepo]
  rw [hreference, ok_bind]
  unfold packedBehindReference
  rw [unpackField_varIntIf hmode, ok_bind]
  rw [unpackField_varIntIf huser, ok_bind]
  rw [unpackField_varIntIf hgroup, ok_bind]
  rw [cvtUInt64FromVarInt128_varIntIf h.sizeRepo, ok_bind]
  rw [unpackField_varIntIf h.bundleId, ok_bind]
  rw [unpackField_varIntIf h.bundleOffset, ok_bind]
  rw [unpackField_varIntIf hblock, ok_bind]
  rw [unpackField_varIntIf h.blockIncrChecksumSize, ok_bind]
  rw [hlast, ok_bind]
  have hsizeOriginal : (if ManifestFilePackFlag.isSet manifest owned.file .sizeOriginal = true then
      owned.file.sizeOriginal else owned.file.size) = owned.file.sizeOriginal := stored_or_default _ _
  have hmodeStored : (if ManifestFilePackFlag.isSet manifest owned.file .mode = true then owned.file.mode
      else manifest.fileModeDefault) = owned.file.mode := stored_or_default _ _
  have huserStored : unpackOwner memory (ManifestFilePackFlag.isSet manifest owned.file .user)
      (ManifestFilePackFlag.isSet manifest owned.file .userNull)
      (if ManifestFilePackFlag.isSet manifest owned.file .user = true then owned.user.toNat else 0)
      manifest.fileUserDefault = owned.file.user := unpackOwner_eq owned.user_at 0
  have hgroupStored : unpackOwner memory (ManifestFilePackFlag.isSet manifest owned.file .group)
      (ManifestFilePackFlag.isSet manifest owned.file .groupNull)
      (if ManifestFilePackFlag.isSet manifest owned.file .group = true then owned.group.toNat else 0)
      manifest.fileGroupDefault = owned.file.group := unpackOwner_eq owned.group_at 0
  have hbundleId : (if ManifestFilePackFlag.isSet manifest owned.file .bundle = true then owned.file.bundleId
      else 0) = owned.file.bundleId := stored_or_default _ _
  have hbundleOffset : (if ManifestFilePackFlag.isSet manifest owned.file .bundle = true then
      owned.file.bundleOffset else 0) = owned.file.bundleOffset := by
    split
    · rfl
    · rename_i hunset
      exact (h.bundleNone (not_not.mp fun hne => hunset (decide_eq_true hne))).symm
  have hblockNone : ¬ManifestFilePackFlag.isSet manifest owned.file .blockIncr = true → owned.file.blockIncrSize = 0 :=
    fun hunset => not_not.mp fun hne => hunset (decide_eq_true hne)
  have hblockIncrSize : u64 ((if ManifestFilePackFlag.isSet manifest owned.file .blockIncr = true then
      owned.file.blockIncrSize / BLOCK_INCR_SIZE_FACTOR else 0) * BLOCK_INCR_SIZE_FACTOR)
      = owned.file.blockIncrSize := by
    split
    · rw [Nat.div_mul_cancel (Nat.dvd_of_mod_eq_zero h.blockIncrFactor), u64_of_lt h.blockIncrSize]
    · rename_i hunset
      rw [hblockNone hunset]
      rfl
  have hblockIncrChecksumSize : (if ManifestFilePackFlag.isSet manifest owned.file .blockIncr = true then
      owned.file.blockIncrChecksumSize else 0) = owned.file.blockIncrChecksumSize := by
    split
    · rfl
    · rename_i hunset
      exact (h.blockIncrNone (hblockNone hunset)).1.symm
  have hblockIncrMapSize : (if ManifestFilePackFlag.isSet manifest owned.file .blockIncr = true then
      owned.file.blockIncrMapSize else 0) = owned.file.blockIncrMapSize := by
    split
    · rfl
    · rename_i hunset
      exact (h.blockIncrNone (hblockNone hunset)).2.symm
  have herrorList := unpackErrorList_eq owned.file.checksumPageErrorList owned.file.name.length data.length
  have htimestamp : base - cvtInt64FromZigZag (cvtInt64ToZigZag (base - owned.file.timestamp))
      = owned.file.timestamp := by
    rw [cvtInt64FromZigZag_to h.timestamp.1 h.timestamp.2]
    omega
  rw [hsizeOriginal, hmodeStored, huserStored, hgroupStored, hbundleId, hbundleOffset, hblockIncrSize,
    hblockIncrChecksumSize, hblockIncrMapSize, htimestamp, u32_of_lt h.mode]
  exact congrArg (fun list => (.ok { owned.file with checksumPageErrorList := list } : Except Error ManifestFile))
    herrorList

/-- **What is packed is unpacked**: the pack has the name of the file, and as long
as the defaults and the base time stay it gives the file back, also when
references have been appended to the list. -/
theorem manifestFileUnpack_pack (hrefs : manifest.referenceList.length ≤ 2 ^ 32) {base' : ℤ}
    {filePack : ManifestFilePack} (hpack : manifestFilePack manifest base owned = .ok (base', filePack)) :
    base' = manifestPackBaseTimeNext base owned.file ∧ filePack.name = owned.file.name ∧
      (owned.file.Packable base' → ∀ more,
        manifestFileUnpack memory { manifest with referenceList := manifest.referenceList ++ more } base' filePack
          = .ok owned.file) := by
  obtain ⟨data, hdata, hresult⟩ := ok_of_bind hpack
  obtain ⟨hbase, rfl⟩ := ok_inj hresult
  refine ⟨hbase.symm, rfl, fun hpackable more => ?_⟩
  rw [hbase, manifestFilePackData_eq hpackable hrefs] at hdata
  obtain ⟨idx, hidx, hdata⟩ := ok_of_bind hdata
  cases hdata
  exact manifestFileUnpack_packedData hpackable (referenceIdx_lt hrefs hidx) hidx more

end File

end PgxBackup
