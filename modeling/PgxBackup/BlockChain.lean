import PgxBackup.BlockIncrMap

/-!
# A chain of backups of a file

Each backup of a file reads the last map that was written for it and stores
the blocks that are new or have changed, then a new map unless the old one
still describes the file. The files of the repository are found by the
reference of the backup and the bundle; a file may share a bundle with
others, so there may be something before and after it.
-/

namespace PgxBackup

open List Chunks

/-- Where a map is stored. -/
structure BlockMapPlace where
  reference : ℕ
  bundleId : ℕ
  offset : ℕ
  size : ℕ
  deriving Repr

/-- What the repository has of a file: the files by reference and bundle,
and where the last map is. -/
structure BlockRepo where
  file : ℕ → ℕ → List UInt8
  map : Option BlockMapPlace

/-- Nothing was backed up yet. -/
def BlockRepo.empty : BlockRepo := { file := fun _ _ => [], map := none }

/-- A version of the file and how it is backed up. -/
structure BlockVersion where
  superBlockSize : ℕ
  reference : ℕ
  bundleId : ℕ
  /-- What the bundle has before the file. -/
  before : List UInt8
  /-- What the bundle has after the file. -/
  after : List UInt8
  content : List UInt8
  deriving Repr

section Chain

variable (pipe : BlockPipe) (blockSize checksumSize : ℕ)

/-- Read the last map, as it was before encryption. -/
def BlockRepo.readMap (repo : BlockRepo) : Except Error (Option (List UInt8)) :=
  match repo.map with
  | none => .ok none
  | some place => do
    let bytes ← pipe.decodeMap
      (((repo.file place.reference place.bundleId).drop place.offset).take place.size)
    return some bytes

/-- Add what is left of a backup. The map is at the end of what is stored. -/
def BlockRepo.add (repo : BlockRepo) (version : BlockVersion) (result : BlockIncrResult) :
    BlockRepo :=
  { file := fun reference bundleId =>
      if reference = version.reference ∧ bundleId = version.bundleId then
        version.before ++ result.out ++ version.after
      else repo.file reference bundleId
    map :=
      match result.map with
      | none => repo.map
      | some (_, size) => some
        { reference := version.reference
          bundleId := version.bundleId
          offset := version.before.length + result.out.length - size
          size := size } }

/-- **Back up a version of the file.** Also returns the map if it is
written. -/
def backupVersion (repo : BlockRepo) (version : BlockVersion) :
    Except Error (BlockRepo × Option (List BlockMapItem)) := do
  let prior ← repo.readMap pipe
  let param ← blockIncrNew version.superBlockSize blockSize checksumSize version.reference
    version.bundleId version.before.length prior
  let result ← blockIncr pipe param version.content
  return (repo.add version result, result.map.map Prod.fst)

/-- **Back up the versions of a file**, one after the other. Also returns the
maps that are written. -/
def backupChain (repo : BlockRepo) :
    List BlockVersion → Except Error (BlockRepo × List (List BlockMapItem))
  | [] => .ok (repo, [])
  | version :: versions => do
    let (repo, map) ← backupVersion pipe blockSize checksumSize repo version
    let (repo, maps) ← backupChain repo versions
    return (repo, map.toList ++ maps)

/-- The sizes that a version can have. -/
structure VersionValid (version : BlockVersion) : Prop where
  reference : version.reference < 2 ^ 29
  bundleId : version.bundleId < 2 ^ 64
  before : version.before.length < 2 ^ 63
  size : version.content.length < 2 ^ 57
  blocks : total blockSize version.content.length ≤ 2 ^ 31

/-- The parameters of the filter. -/
def BlockVersion.param (version : BlockVersion) (prior : Option (List BlockMapItem)) :
    BlockIncrParam :=
  { superBlockSize := u64 (superBlockTotal blockSize version.superBlockSize * blockSize)
    blockSize
    checksumSize
    reference := version.reference
    bundleId := version.bundleId
    bundleOffset := version.before.length
    blockMapPrior := prior }

end Chain

/-! ## The map in force -/

/-- **The last map can be read** and is one of the chain. -/
structure MapInForce (pipe : BlockPipe) (blockSize checksumSize : ℕ) (repo : BlockRepo)
    (place : BlockMapPlace) (map : List BlockMapItem) : Prop where
  ne : map ≠ []
  inv : MapInv blockSize checksumSize map
  reference : ∀ x ∈ map, x.reference ≤ place.reference
  read : ∃ bytes, pipe.decodeMap
      (((repo.file place.reference place.bundleId).drop place.offset).take place.size)
        = .ok bytes ∧ (blockMapNewRead blockSize checksumSize).run bytes = .ok (map, [])

/-- What holds between two backups of the file. -/
def ChainInv (pipe : BlockPipe) (blockSize checksumSize : ℕ) (repo : BlockRepo)
    (prior : Option (List BlockMapItem)) (reference : ℕ) : Prop :=
  match repo.map, prior with
  | none, none => True
  | some place, some map =>
    place.reference < reference ∧ MapInForce pipe blockSize checksumSize repo place map
  | _, _ => False

section Step

variable {pipe : BlockPipe} {blockSize checksumSize : ℕ} {repo : BlockRepo}
variable {prior : Option (List BlockMapItem)} {version : BlockVersion}

theorem VersionValid.sizeValid (h : VersionValid blockSize version) (hblockSize : 0 < blockSize)
    (hchecksumSize : checksumSize ≤ XX_HASH_SIZE_MAX) (prior : Option (List BlockMapItem)) :
    SizeValid (version.param blockSize checksumSize prior) version.content :=
  ⟨hblockSize, hchecksumSize, h.reference, h.bundleId, h.before, h.size, h.blocks⟩

theorem MapInv.nil : MapInv blockSize checksumSize [] := by
  refine ⟨by simp, ?_, ?_, ?_, ?_, ?_⟩ <;> simp

theorem ChainInv.mono {reference reference' : ℕ}
    (h : ChainInv pipe blockSize checksumSize repo prior reference)
    (hle : reference ≤ reference') :
    ChainInv pipe blockSize checksumSize repo prior reference' := by
  unfold ChainInv at h ⊢
  cases hmap : repo.map with
  | none =>
    rw [hmap] at h
    cases prior with
    | none => exact h
    | some map => exact h
  | some place =>
    rw [hmap] at h
    cases prior with
    | none => exact h
    | some map => exact ⟨lt_of_lt_of_le h.1 hle, h.2⟩

section

variable (h : ChainInv pipe blockSize checksumSize repo prior version.reference)
include h

theorem ChainInv.start :
    (do
      let prior ← repo.readMap pipe
      blockIncrNew version.superBlockSize blockSize checksumSize version.reference
        version.bundleId version.before.length prior)
      = .ok (version.param blockSize checksumSize prior) := by
  unfold ChainInv at h
  unfold BlockRepo.readMap
  cases hmap : repo.map with
  | none =>
    cases prior with
    | none => rfl
    | some map =>
      rw [hmap] at h
      exact h.elim
  | some place =>
    cases prior with
    | none =>
      rw [hmap] at h
      exact h.elim
    | some map =>
      rw [hmap] at h
      obtain ⟨bytes, hdecode, hread⟩ := h.2.read
      dsimp only
      rw [hdecode, ok_bind]
      show blockIncrNew _ _ _ _ _ _ (some bytes) = _
      unfold blockIncrNew
      dsimp only
      rw [hread, ok_bind]
      rfl

theorem ChainInv.mapInv_prior :
    MapInv blockSize checksumSize (prior.getD []) ∧
      ∀ x ∈ prior.getD [], x.reference < version.reference := by
  unfold ChainInv at h
  cases hmap : repo.map with
  | none =>
    cases prior with
    | none => exact ⟨MapInv.nil, by simp⟩
    | some map =>
      rw [hmap] at h
      exact h.elim
  | some place =>
    cases prior with
    | none =>
      rw [hmap] at h
      exact h.elim
    | some map =>
      rw [hmap] at h
      exact ⟨h.2.inv, fun x hx => lt_of_le_of_lt (h.2.reference x hx) h.1⟩

end

variable {param : BlockIncrParam} {map : List BlockMapItem} {s : BlockIncrState}

/-- Without new blocks the map is the prior one. -/
theorem RunInv.unchanged
    {content file : List UInt8} (h : RunInv pipe param map content file s)
    (hnone : s.blockOutWrite = none) (hwrite : s.blockMapWrite = false)
    (hlen : map.length ≤ s.blockMapOut.length) : s.blockMapOut = map := by
  have hold : ∀ (i : ℕ) (x : BlockMapItem), s.blockMapOut[i]? = some x → map[i]? = some x := by
    intro i x hx
    refine h.old i x hx (fun href => ?_)
    obtain ⟨superBlock, hclosed⟩ := h.stored_of_new hnone hx href
    have htrue := hclosed.blockMapWrite
    rw [hwrite] at htrue
    cases htrue
  refine ext_getElem? (fun i => ?_)
  cases hx : s.blockMapOut[i]? with
  | none =>
    rw [getElem?_eq_none_iff] at hx
    rw [getElem?_eq_none (by omega)]
  | some x => rw [hold i x hx]

/-- What a backup of a version leaves. -/
structure Backed (pipe : BlockPipe) (blockSize checksumSize : ℕ) (repo : BlockRepo)
    (version : BlockVersion) (prior : Option (List BlockMapItem)) (repo' : BlockRepo)
    (written : Option (List BlockMapItem)) (s : BlockIncrState) (out more : List UInt8) : Prop where
  run : RunInv pipe (version.param blockSize checksumSize prior) (prior.getD []) version.content
    (version.before ++ out) s
  closed : s.blockOutWrite = none
  file : repo'.file version.reference version.bundleId
    = version.before ++ out ++ more
  frame : ∀ reference bundleId, reference ≠ version.reference →
    repo'.file reference bundleId = repo.file reference bundleId
  map : s.blockMapOut = (written.orElse (fun _ => prior)).getD []
  inv : ChainInv pipe blockSize checksumSize repo' (written.orElse (fun _ => prior))
    (version.reference + 1)
  written : ∀ map ∈ written, map ≠ [] ∧ MapInv blockSize checksumSize map

section

variable (repo : BlockRepo) (version : BlockVersion) (result : BlockIncrResult)

/-- The file is not changed by a later backup. -/
theorem BlockRepo.add_frame {reference : ℕ} (bundleId : ℕ) (hne : reference ≠ version.reference) :
    (repo.add version result).file reference bundleId = repo.file reference bundleId := by
  unfold BlockRepo.add
  dsimp only
  rw [if_neg (fun h => hne h.1)]

theorem BlockRepo.add_file :
    (repo.add version result).file version.reference version.bundleId
      = version.before ++ result.out ++ version.after := by
  unfold BlockRepo.add
  dsimp only
  rw [if_pos ⟨rfl, rfl⟩]

end

theorem mapNeeded_nil (pipe : BlockPipe) (hprior : param.blockMapPrior = none) :
    (blockIncrEnd pipe param []).1.mapNeeded param = false := by
  unfold blockIncrEnd blockIncrBlocks BlockIncrState.mapNeeded
  rw [chunks_nil, hprior]
  rfl

theorem RunInv.reference_le
    {content file : List UInt8} (h : RunInv pipe param map content file s)
    (hmap : ∀ x ∈ map, x.reference < param.reference) :
    ∀ x ∈ s.blockMapOut, x.reference ≤ param.reference := by
  intro x hx
  obtain ⟨i, hi⟩ := mem_iff_getElem?.mp hx
  by_cases href : x.reference = param.reference
  · exact href.le
  · exact (hmap x (mem_of_getElem? (h.old i x hi href))).le

/-- A backup that writes no map leaves the one in force. -/
theorem ChainInv.add_none (h : ChainInv pipe blockSize checksumSize repo prior version.reference)
    (out : List UInt8) :
    ChainInv pipe blockSize checksumSize (repo.add version { out := out, map := none }) prior
      (version.reference + 1) := by
  have hmap : (repo.add version { out := out, map := none }).map = repo.map := rfl
  unfold ChainInv at h ⊢
  rw [hmap]
  cases hplace : repo.map with
  | none =>
    rw [hplace] at h
    cases prior with
    | none => exact h
    | some map => exact h
  | some place =>
    rw [hplace] at h
    cases prior with
    | none => exact h
    | some map =>
      obtain ⟨hlt, hforce⟩ := h
      refine ⟨Nat.lt_succ_of_lt hlt, hforce.ne, hforce.inv, hforce.reference, ?_⟩
      rw [BlockRepo.add_frame repo version _ _ (Nat.ne_of_lt hlt)]
      exact hforce.read

/-- A backup that writes a map has it in force. -/
theorem chainInv_add_some (hpipe : PipeValid pipe)
    {out bytes : List UInt8} (hne : map ≠ []) (hinv : MapInv blockSize checksumSize map)
    (href : ∀ x ∈ map, x.reference ≤ version.reference)
    (hread : (blockMapNewRead blockSize checksumSize).run bytes = .ok (map, [])) :
    ChainInv pipe blockSize checksumSize
      (repo.add version
        { out := out ++ pipe.encodeMap version.reference bytes
          map := some (map, (pipe.encodeMap version.reference bytes).length) })
      (some map) (version.reference + 1) := by
  refine ⟨Nat.lt_succ_self _, hne, hinv, href, bytes, ?_, hread⟩
  rw [BlockRepo.add_file]
  -- the map is what comes after the super blocks
  have hplace : version.before.length + (out ++ pipe.encodeMap version.reference bytes).length
      - (pipe.encodeMap version.reference bytes).length = (version.before ++ out).length := by
    rw [length_append, length_append]
    omega
  have hfile : version.before ++ (out ++ pipe.encodeMap version.reference bytes) ++ version.after
      = (version.before ++ out)
        ++ (pipe.encodeMap version.reference bytes ++ version.after) := by
    simp only [append_assoc]
  rw [hplace, hfile, drop_left, take_left]
  exact hpipe.decodeMap_encodeMap _ _

/-- **A version is backed up** unless it is empty and there is a map. -/
theorem backupVersion_ok (hpipe : PipeValid pipe) (hblockSize : 0 < blockSize)
    (hchecksumSize : checksumSize ≤ XX_HASH_SIZE_MAX)
    (h : ChainInv pipe blockSize checksumSize repo prior version.reference)
    (hversion : VersionValid blockSize version) (hne : version.content ≠ [] ∨ prior = none) :
    ∃ repo' written s out more,
      backupVersion pipe blockSize checksumSize repo version = .ok (repo', written) ∧
      Backed pipe blockSize checksumSize repo version prior repo' written s out more := by
  obtain ⟨hmapInv, hreference⟩ := h.mapInv_prior
  have hsizes := hversion.sizeValid hblockSize hchecksumSize prior
  have hprior : ∀ x ∈ (version.param blockSize checksumSize prior).blockMapPrior.getD [],
      x.reference ≠ (version.param blockSize checksumSize prior).reference :=
    fun x hx => Nat.ne_of_lt (hreference x hx)
  obtain ⟨hrun, hclosed⟩ := runInv_end hpipe hprior
    (show version.before.length = (version.param blockSize checksumSize prior).bundleOffset from rfl)
    hsizes
  have hmap := hrun.mapInv hpipe hclosed hsizes hmapInv
  have hbackup : backupVersion pipe blockSize checksumSize repo version = (do
      let result ← blockIncr pipe (version.param blockSize checksumSize prior) version.content
      return (repo.add version result, result.map.map Prod.fst)) := by
    unfold backupVersion
    have hstart := h.start
    rw [← bind_assoc, hstart, ok_bind]
  rw [hbackup]
  unfold blockIncr
  generalize hend : blockIncrEnd pipe (version.param blockSize checksumSize prior) version.content
    = result at *
  obtain ⟨s, out⟩ := result
  dsimp only at hrun hclosed hmap ⊢
  by_cases hneeded : s.mapNeeded (version.param blockSize checksumSize prior) = true
  · -- the map is written
    have hcontent : version.content ≠ [] := by
      rcases hne with hcontent | hnone
      · exact hcontent
      · intro hnil
        have hno := mapNeeded_nil pipe
          (show (version.param blockSize checksumSize prior).blockMapPrior = none from hnone)
        rw [hnil] at hend
        rw [hend, hneeded] at hno
        cases hno
    have hmapne : s.blockMapOut ≠ [] := by
      rw [← length_pos_iff, hrun.length, lt_total_iff hsizes.blockSize, Nat.zero_mul]
      exact length_pos_iff.mpr hcontent
    obtain ⟨bytes, hwrite, hread⟩ := hmap.readBack hmapne hblockSize hchecksumSize
    have hbytes : s.mapBytes pipe (version.param blockSize checksumSize prior)
        = .ok (pipe.encodeMap version.reference bytes) := by
      unfold BlockIncrState.mapBytes
      rw [hwrite, ok_bind]
      rfl
    rw [if_pos hneeded, hbytes, ok_bind]
    refine ⟨_, _, s, out, pipe.encodeMap version.reference bytes ++ version.after, rfl, ?_⟩
    refine ⟨hrun, hclosed, ?_, ?_, rfl, ?_, ?_⟩
    · rw [BlockRepo.add_file]
      simp only [append_assoc]
    · intro reference bundleId href
      exact BlockRepo.add_frame repo version _ bundleId href
    · exact chainInv_add_some hpipe hmapne hmap (hrun.reference_le hreference) hread
    · intro map hwritten
      obtain rfl : s.blockMapOut = map := by simpa using hwritten
      exact ⟨hmapne, hmap⟩
  · -- nothing has changed
    have hno : s.blockMapWrite = false ∧ (prior.getD []).length ≤ s.blockMapOut.length := by
      unfold BlockIncrState.mapNeeded at hneeded
      cases prior with
      | none => simpa [BlockVersion.param] using hneeded
      | some map => simpa [BlockVersion.param] using hneeded
    rw [if_neg hneeded]
    refine ⟨_, _, s, out, version.after, rfl, ?_⟩
    refine ⟨hrun, hclosed, ?_, ?_, ?_, ?_, by simp⟩
    · rw [BlockRepo.add_file]
    · intro reference bundleId href
      exact BlockRepo.add_frame repo version _ bundleId href
    · exact hrun.unchanged hclosed hno.1 hno.2
    · exact h.add_none out

/-- **An empty version after a map is not backed up**: an empty map would be
written, which an assertion rules out. -/
theorem backupVersion_empty
    (h : ChainInv pipe blockSize checksumSize repo (some map) version.reference)
    (hnil : version.content = []) :
    backupVersion pipe blockSize checksumSize repo version
      = .error ⟨.assertError, "assertion 'blockMapSize(this) > 0' failed".toList⟩ := by
  have hmap : 0 < map.length := by
    unfold ChainInv at h
    cases hplace : repo.map with
    | none =>
      rw [hplace] at h
      exact h.elim
    | some place =>
      rw [hplace] at h
      exact length_pos_iff.mpr h.2.ne
  unfold backupVersion
  rw [← bind_assoc, h.start, ok_bind, hnil]
  unfold blockIncr blockIncrEnd blockIncrBlocks
  rw [chunks_nil]
  dsimp only [foldl_nil, BlockIncrState.writeSuperBlock, BlockIncrState.new]
  have hneeded : BlockIncrState.mapNeeded (version.param blockSize checksumSize (some map))
      (.new (version.param blockSize checksumSize (some map))) = true := by
    show (false || decide (0 < map.length)) = true
    rw [Bool.false_or]
    exact decide_eq_true hmap
  unfold BlockIncrState.new at hneeded
  rw [if_pos hneeded]
  rfl

theorem Backed.none_iff {repo' : BlockRepo} {written : Option (List BlockMapItem)}
    {out more : List UInt8} (hblockSize : 0 < blockSize)
    (h : Backed pipe blockSize checksumSize repo version prior repo' written s out more) :
    written.orElse (fun _ => prior) = none ↔ version.content = [] ∧ prior = none := by
  have hlen := h.run.length
  constructor
  · intro hnone
    have hprior : prior = none := by
      cases written with
      | none => exact hnone
      | some map => cases hnone
    refine ⟨?_, hprior⟩
    rw [h.map, hnone] at hlen
    by_contra hne
    have hpos : 0 < total blockSize version.content.length := by
      rw [lt_total_iff hblockSize, Nat.zero_mul]
      exact length_pos_iff.mpr hne
    exact absurd hlen (Nat.ne_of_lt hpos)
  · rintro ⟨hnil, rfl⟩
    cases hwritten : written with
    | none => rfl
    | some map =>
      have hmap := (h.written map hwritten).1
      have hout := h.map
      rw [hwritten] at hout
      rw [hnil, hout] at hlen
      have hzero : map.length = 0 := by
        rw [show map.length = total blockSize 0 from hlen]
        simp [total]
      exact absurd (length_eq_zero_iff.mp hzero) hmap

/-- The chain from any point: the maps are well-formed unless an empty
version comes after a map. -/
theorem backupChain_iff (hpipe : PipeValid pipe) (hblockSize : 0 < blockSize)
    (hchecksumSize : checksumSize ≤ XX_HASH_SIZE_MAX) (versions : List BlockVersion)
    (hversions : ∀ version ∈ versions, VersionValid blockSize version)
    (hincreasing : versions.Pairwise (fun a b => a.reference < b.reference))
    (repo : BlockRepo) (prior : Option (List BlockMapItem)) (reference : ℕ)
    (h : ChainInv pipe blockSize checksumSize repo prior reference)
    (hreference : ∀ version ∈ versions, reference ≤ version.reference) :
    (∃ repo' maps, backupChain pipe blockSize checksumSize repo versions = .ok (repo', maps) ∧
      ∀ map ∈ maps, MapWellFormed blockSize map) ↔
    (prior ≠ none → ∀ version ∈ versions, version.content ≠ []) ∧
      versions.Pairwise (fun a b => a.content ≠ [] → b.content ≠ []) := by
  induction versions generalizing repo prior reference with
  | nil => simp [backupChain]
  | cons version versions ih =>
    rw [forall_mem_cons] at hversions hreference
    rw [pairwise_cons] at hincreasing
    have hinv := h.mono hreference.1
    unfold backupChain
    by_cases hne : version.content ≠ [] ∨ prior = none
    · obtain ⟨repo₁, written, s, out, more, hbackup, hbacked⟩ :=
        backupVersion_ok hpipe hblockSize hchecksumSize hinv hversions.1 hne
      have hnone := hbacked.none_iff hblockSize
      have hih := ih hversions.2 hincreasing.2 repo₁ (written.orElse (fun _ => prior))
        (version.reference + 1) hbacked.inv (fun v hv => hincreasing.1 v hv)
      have hwritten : ∀ map ∈ written.toList, MapWellFormed blockSize map := fun map hmap =>
        (hbacked.written map (Option.mem_toList.mp hmap)).2.wellFormed
      rw [hbackup, ok_bind]
      have hrest : (∃ repo' maps, (do
          let (repo, maps) ← backupChain pipe blockSize checksumSize repo₁ versions
          return (repo, written.toList ++ maps)) = .ok (repo', maps) ∧
            ∀ map ∈ maps, MapWellFormed blockSize map) ↔
          ∃ repo' maps, backupChain pipe blockSize checksumSize repo₁ versions
            = .ok (repo', maps) ∧ ∀ map ∈ maps, MapWellFormed blockSize map := by
        cases hchain : backupChain pipe blockSize checksumSize repo₁ versions with
        | error e =>
          constructor
          · rintro ⟨_, _, hbad, -⟩
            exact absurd hbad (by simp [bind, Except.bind])
          · rintro ⟨_, _, hbad, -⟩
            cases hbad
        | ok r =>
          rw [ok_bind]
          constructor
          · rintro ⟨repo', maps, heq, hall⟩
            obtain ⟨rfl, rfl⟩ : r.1 = repo' ∧ written.toList ++ r.2 = maps := by
              simpa [pure, Except.pure] using heq
            exact ⟨r.1, r.2, rfl, fun map hmap => hall map (mem_append_right _ hmap)⟩
          · rintro ⟨repo', maps, heq, hall⟩
            obtain rfl : r = (repo', maps) := by simpa using heq
            refine ⟨repo', written.toList ++ maps, rfl, fun map hmap => ?_⟩
            rcases mem_append.mp hmap with hmap | hmap
            · exact hwritten map hmap
            · exact hall map hmap
      rw [hrest, hih, pairwise_cons, forall_mem_cons]
      -- there is a map after this version unless it is empty
      have hsome : written.orElse (fun _ => prior) ≠ none ↔ version.content ≠ [] := by
        rw [Ne, hnone]
        constructor
        · intro hno hnil
          exact hno ⟨hnil, hne.resolve_left (fun hbad => hbad hnil)⟩
        · exact fun hcontent hno => hcontent hno.1
      rw [hsome]
      constructor
      · rintro ⟨hall, hpair⟩
        refine ⟨fun hprior => ?_, fun v hv hcontent => hall hcontent v hv, hpair⟩
        have hcontent := hne.resolve_right hprior
        exact ⟨hcontent, hall hcontent⟩
      · rintro ⟨-, hall, hpair⟩
        exact ⟨fun hcontent v hv => hall v hv hcontent, hpair⟩
    · -- an empty map would be written
      rw [not_or, not_not] at hne
      obtain ⟨hnil, hprior⟩ := hne
      obtain ⟨map, rfl⟩ : ∃ map, prior = some map := Option.ne_none_iff_exists'.mp hprior
      rw [backupVersion_empty hinv hnil]
      constructor
      · rintro ⟨_, _, hbad, -⟩
        exact absurd hbad (by simp [bind, Except.bind])
      · rintro ⟨hall, -⟩
        exact absurd hnil (hall (by simp) version mem_cons_self)

end Step

/-! ## The whole chain -/

/-- **The maps of a chain of backups are well-formed** and can be written,
exactly when no version is empty after one that is not. The references
increase from backup to backup. -/
theorem backupChain_wellFormed (pipe : BlockPipe) (hpipe : PipeValid pipe)
    (blockSize checksumSize : ℕ) (hblockSize : 0 < blockSize)
    (hchecksumSize : checksumSize ≤ XX_HASH_SIZE_MAX) (versions : List BlockVersion)
    (hversions : ∀ version ∈ versions, VersionValid blockSize version)
    (hincreasing : versions.Pairwise (fun a b => a.reference < b.reference)) :
    (∃ repo maps, backupChain pipe blockSize checksumSize .empty versions = .ok (repo, maps) ∧
      ∀ map ∈ maps, MapWellFormed blockSize map) ↔
    versions.Pairwise (fun a b => a.content ≠ [] → b.content ≠ []) := by
  have h : ChainInv pipe blockSize checksumSize .empty none 0 := trivial
  rw [backupChain_iff hpipe hblockSize hchecksumSize versions hversions hincreasing .empty none 0 h
    (fun version _ => Nat.zero_le _)]
  exact ⟨fun hall => hall.2, fun hall => ⟨fun hno => absurd rfl hno, hall⟩⟩

/-- The hashes of some blocks; other blocks do not matter. -/
def xxHashSample (block : List UInt8) : List UInt8 :=
  if block = [65, 66, 67] then
    [158, 148, 127, 0, 236, 214, 172, 178, 36, 77, 164, 15, 64, 92, 135, 14]
  else if block = [88, 89, 90] then
    [38, 37, 27, 17, 165, 192, 44, 185, 147, 60, 6, 136, 135, 235, 107, 101]
  else if block = [49, 50, 51] then
    [14, 69, 247, 43, 2, 109, 67, 79, 64, 74, 118, 59, 63, 76, 140, 154]
  else if block = [65, 67, 67] then
    [106, 132, 50, 128, 58, 241, 174, 191, 184, 118, 201, 132, 14, 137, 45, 58]
  else if block = [64] then
    [172, 165, 212, 38, 167, 209, 19, 192, 118, 94, 101, 154, 116, 128, 205, 81]
  else replicate XX_HASH_SIZE_MAX 0

/-- Neither compression nor encryption. -/
def blockPipeSample : BlockPipe :=
  { xxHash := xxHashSample
    encode := fun _ _ content => content
    decode := .ok
    encodeMap := fun _ map => map
    decodeMap := .ok }

theorem blockPipeSample_valid : PipeValid blockPipeSample where
  xxHash := by
    intro m
    show (xxHashSample m).length = XX_HASH_SIZE_MAX
    unfold xxHashSample
    split_ifs <;> rfl
  encode_ne := fun _ _ _ h => h
  encode_le := by
    intro r o c
    show c.length ≤ 2 * c.length + 2 ^ 16
    omega
  decode_encode := fun _ _ _ => rfl
  decodeMap_encodeMap := fun _ _ => rfl

/-- A version `ABCXYZ123`, in a bundle. -/
def fullVersion : BlockVersion :=
  { superBlockSize := 6, reference := 2, bundleId := 4, before := [0, 0, 0, 0, 0], after := [9]
    content := [65, 66, 67, 88, 89, 90, 49, 50, 51] }

/-- A version `ACCXYZ123@`. -/
def incrVersion : BlockVersion :=
  { superBlockSize := 3, reference := 3, bundleId := 0, before := [], after := []
    content := [65, 67, 67, 88, 89, 90, 49, 50, 51, 64] }

def emptyVersion : BlockVersion :=
  { superBlockSize := 3, reference := 4, bundleId := 0, before := [], after := [], content := [] }

theorem fullVersion_valid : VersionValid 3 fullVersion :=
  ⟨by decide, by decide, by decide, by decide, by decide⟩

theorem incrVersion_valid : VersionValid 3 incrVersion :=
  ⟨by decide, by decide, by decide, by decide, by decide⟩

theorem backupChain_wellFormed_fullIncr :
    ∃ repo maps, backupChain blockPipeSample 3 8 .empty [fullVersion, incrVersion]
      = .ok (repo, maps) ∧ ∀ map ∈ maps, MapWellFormed 3 map := by
  refine (backupChain_wellFormed blockPipeSample blockPipeSample_valid 3 8 (by decide) (by decide)
    [fullVersion, incrVersion] ?_ (by decide)).mpr (by decide)
  simp only [forall_mem_cons]
  exact ⟨fullVersion_valid, incrVersion_valid, by simp⟩

/-- **The assertion fails** when the file is empty after two backups. -/
theorem backupChain_empty :
    (backupChain blockPipeSample 3 8 .empty [fullVersion, incrVersion, emptyVersion]).map Prod.snd
      = .error ⟨.assertError, "assertion 'blockMapSize(this) > 0' failed".toList⟩ := by
  decide +kernel

end PgxBackup
