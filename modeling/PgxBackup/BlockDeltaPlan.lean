import PgxBackup.BlockRestore
import PgxBackup.Keyed

/-!
# What a restore plans to read

The blocks that are needed are grouped twice: by their reference, and then
into reads of super blocks that follow each other. Nothing is lost in this
and nothing is read twice, although a block that is not needed may leave out
a whole super block in the middle of others, and then divides a read.
-/

namespace PgxBackup

open List Chunks Runs

/-! ## The plan -/

/-- A map of the blocks of a file. The blocks of a reference are in one bundle,
the file has a size and each super block a number of blocks. -/
structure MapOfFile (blockSize : ℕ) (map : List BlockMapItem) : Prop extends
    MapWellFormed blockSize map where
  bundleId : map.Pairwise (fun a b => a.reference = b.reference → a.bundleId = b.bundleId)
  size_lt : map.length * blockSize < 2 ^ 64
  total_lt : ∀ x ∈ map, superBlockTotal blockSize x.superBlockSize < 2 ^ 32

/-- The checksum of a position is missing from the list or different. -/
def ChecksumDiffers (checksumSize : ℕ) (blockChecksum : Option (List UInt8)) (i : ℕ)
    (item : BlockMapItem) : Prop :=
  ∀ list ∈ blockChecksum, list.length / checksumSize ≤ i ∨
    item.checksum.take checksumSize ≠ (list.drop (i * checksumSize)).take checksumSize

/-- A block that is planned: its super block, its number there, and its offset
in the file. -/
structure BlockDeltaPlace where
  reference : ℕ
  bundleId : ℕ
  offset : ℕ
  size : ℕ
  superBlockSize : ℕ
  no : ℕ
  target : ℕ
  checksum : List UInt8
  deriving DecidableEq, Repr

/-- Where a position of the map is and where it goes. -/
def placeOf (blockSize : ℕ) (block : ℕ × BlockMapItem) : BlockDeltaPlace :=
  ⟨block.2.reference, block.2.bundleId, block.2.offset, block.2.size, block.2.superBlockSize,
    block.2.block, block.1 * blockSize, block.2.checksum⟩

/-- Super blocks with their offsets, when they touch each other. -/
def superBlockOffsets (offset : ℕ) : List BlockDeltaSuperBlock → List (ℕ × BlockDeltaSuperBlock)
  | [] => []
  | data :: rest => (offset, data) :: superBlockOffsets (offset + data.size) rest

def BlockDeltaSuperBlock.places (reference bundleId offset : ℕ) (data : BlockDeltaSuperBlock) :
    List BlockDeltaPlace :=
  data.blockList.map (fun block =>
    ⟨reference, bundleId, offset, data.size, data.superBlockSize, block.no, block.offset,
      block.checksum⟩)

/-- **The blocks of a read.** -/
def BlockDeltaRead.places (read : BlockDeltaRead) : List BlockDeltaPlace :=
  (superBlockOffsets read.offset read.superBlockList).flatMap (fun data =>
    data.2.places read.reference read.bundleId data.1)

/-- The bytes of a read decode to the contents of its super blocks. -/
def SuperBlocksDecode (pipe : BlockPipe) :
    List BlockDeltaSuperBlock → List (List UInt8) → List UInt8 → Prop
  | [], [], _ => True
  | data :: rest, content :: contents, bytes =>
    pipe.decode (bytes.take data.size) = .ok content ∧ content.length = data.superBlockSize ∧
      SuperBlocksDecode pipe rest contents (bytes.drop data.size)
  | _, _, _ => False

def BlockDeltaSuperBlock.writes (blockSize : ℕ) (data : BlockDeltaSuperBlock) (content : List UInt8) :
    List BlockDeltaWrite :=
  data.blockList.map (fun block => ⟨block.offset, chunk blockSize content block.no⟩)

/-- **How a read must be.** -/
structure BlockDeltaReadOk (pipe : BlockPipe) (blockSize : ℕ) (read : BlockDeltaRead) : Prop where
  /-- Super blocks have strictly increasing offsets. -/
  offset : ((superBlockOffsets read.offset read.superBlockList).map Prod.fst).Pairwise (· < ·)
  size : read.size = (read.superBlockList.map BlockDeltaSuperBlock.size).sum
  /-- The blocks of a super block have strictly increasing numbers. -/
  no : ∀ data ∈ read.superBlockList, (data.blockList.map BlockDeltaBlock.no).Pairwise (· < ·)
  /-- Every listed block comes out once, in this order. -/
  next : ∀ contents bytes, SuperBlocksDecode pipe read.superBlockList contents bytes →
    blockDeltaNext pipe blockSize read.superBlockList bytes
      = .ok ((read.superBlockList.zipWith (BlockDeltaSuperBlock.writes blockSize) contents).flatten)

/-! ## The blocks that are needed -/

section Needed

variable {blockSize checksumSize : ℕ} {map : List BlockMapItem} {blockChecksum : Option (List UInt8)}

theorem blockNeeded_iff {i : ℕ} {item : BlockMapItem}
    (hlist : ∀ list ∈ blockChecksum, list.length / checksumSize < 2 ^ 32) :
    blockNeeded checksumSize blockChecksum i item = true ↔
      ChecksumDiffers checksumSize blockChecksum i item := by
  unfold blockNeeded ChecksumDiffers
  cases blockChecksum with
  | none => simp
  | some list =>
    have hlt := hlist list rfl
    simp [u32_of_lt hlt]

theorem referenceListAdd_map (list : List BlockDeltaReference) (block : ℕ × BlockMapItem) :
    (referenceListAdd list block).map BlockDeltaReference.reference
      = if block.2.reference ∈ list.map BlockDeltaReference.reference then
          list.map BlockDeltaReference.reference
        else list.map BlockDeltaReference.reference ++ [block.2.reference] := by
  have hknown : list.any (fun data => decide (data.reference = block.2.reference)) = true ↔
      block.2.reference ∈ list.map BlockDeltaReference.reference := by
    simp [any_eq_true]
  unfold referenceListAdd
  by_cases hmem : block.2.reference ∈ list.map BlockDeltaReference.reference
  · rw [if_pos (hknown.mpr hmem), if_pos hmem, map_map]
    refine map_congr_left (fun data _ => ?_)
    show BlockDeltaReference.reference (if _ then _ else _) = _
    split
    · rfl
    · rfl
  · rw [if_neg (fun h => hmem (hknown.mp h)), if_neg hmem, map_append]
    rfl

section

variable (checksumSize : ℕ) (map : List BlockMapItem) (blockChecksum : Option (List UInt8))

theorem referenceList_nodup :
    ((referenceList checksumSize map blockChecksum).map BlockDeltaReference.reference).Nodup := by
  have hfoldl : ∀ (blocks : List (ℕ × BlockMapItem)) (list : List BlockDeltaReference),
      (list.map BlockDeltaReference.reference).Nodup →
      ((blocks.foldl referenceListAdd list).map BlockDeltaReference.reference).Nodup := by
    intro blocks
    induction blocks with
    | nil => exact fun list h => h
    | cons block blocks ih =>
      intro list h
      refine ih _ ?_
      rw [referenceListAdd_map]
      split
      · exact h
      · rename_i hnew
        exact nodup_append.mpr ⟨h, nodup_singleton _, fun a ha b hb heq => by
          rw [mem_singleton.mp hb] at heq
          exact hnew (heq ▸ ha)⟩
  refine ((mergeSort_perm _ _).map _).nodup_iff.mpr (hfoldl _ [] nodup_nil)

/-- **The blocks of all references** are those that are needed, once each. -/
theorem referenceList_perm :
    ((referenceList checksumSize map blockChecksum).flatMap BlockDeltaReference.blockList).Perm
      ((map.zipIdx.map Prod.swap).filter
        (fun block => blockNeeded checksumSize blockChecksum block.1 block.2)) := by
  have hinv := referenceList_inv checksumSize map blockChecksum
  have hnodup := referenceList_nodup checksumSize map blockChecksum
  generalize (map.zipIdx.map Prod.swap).filter
    (fun block => blockNeeded checksumSize blockChecksum block.1 block.2) = blocks at hinv ⊢
  have hlists : (referenceList checksumSize map blockChecksum).flatMap BlockDeltaReference.blockList
      = ((referenceList checksumSize map blockChecksum).map BlockDeltaReference.reference).flatMap
          (fun reference => blocks.filter (fun block => decide (block.2.reference = reference))) := by
    rw [flatMap_map]
    exact flatMap_congr (fun data hdata => hinv.blockList data hdata)
  rw [hlists]
  refine Keyed.flatMap_filter_perm _ hnodup blocks (fun block hblock => ?_)
  obtain ⟨data, hdata, heq⟩ := hinv.mem block hblock
  exact heq ▸ mem_map_of_mem hdata

end

end Needed

/-! ## Reads of blocks in order -/

/-- Two blocks of a reference, one after the other in the map. -/
structure BlockBefore (a b : ℕ × BlockMapItem) : Prop where
  reference : a.2.reference = b.2.reference
  bundleId : a.2.bundleId = b.2.bundleId
  increasing : a.2.offset < b.2.offset ∨ a.2.offset = b.2.offset ∧ a.2.block < b.2.block
  superBlock : a.2.offset = b.2.offset → a.2.size = b.2.size ∧ a.2.superBlockSize = b.2.superBlockSize

/-- Blocks of a reference as they are in the map. -/
structure BlocksInOrder (blockSize : ℕ) (blocks : List (ℕ × BlockMapItem)) : Prop where
  before : blocks.Pairwise BlockBefore
  target : ∀ b ∈ blocks, b.1 * blockSize < 2 ^ 64
  block : ∀ b ∈ blocks, b.2.block < superBlockTotal blockSize b.2.superBlockSize
  total_lt : ∀ b ∈ blocks, superBlockTotal blockSize b.2.superBlockSize < 2 ^ 32

def OneSuperBlock (blocks : List (ℕ × BlockMapItem)) : Prop :=
  blocks.IsChain (fun a b => a.2.offset = b.2.offset)

def SuperBlockTouches (a b : ℕ × BlockMapItem) : Prop :=
  a.2.offset + a.2.size = b.2.offset ∧ a.2.offset < b.2.offset

section Order

variable {blockSize : ℕ} {blocks part : List (ℕ × BlockMapItem)} {p b : ℕ × BlockMapItem}

theorem BlocksInOrder.sublist (h : BlocksInOrder blockSize blocks) (hpart : part.Sublist blocks) :
    BlocksInOrder blockSize part where
  before := h.before.sublist hpart
  target := fun b hb => h.target b (hpart.subset hb)
  block := fun b hb => h.block b (hpart.subset hb)
  total_lt := fun b hb => h.total_lt b (hpart.subset hb)

section

variable (h : OneSuperBlock (p :: blocks)) (horder : BlocksInOrder blockSize (p :: blocks))
include h horder

/-- The first block of a super block stands for the others. -/
theorem OneSuperBlock.same (hb : b ∈ p :: blocks) :
    b.2.reference = p.2.reference ∧ b.2.bundleId = p.2.bundleId ∧
      b.2.offset = p.2.offset ∧ b.2.size = p.2.size ∧ b.2.superBlockSize = p.2.superBlockSize := by
  obtain rfl | hb := mem_cons.mp hb
  · exact ⟨rfl, rfl, rfl, rfl, rfl⟩
  · have hoffset : p.2.offset = b.2.offset := eq_of_isChain h b hb
    have hbefore := (pairwise_cons.mp horder.before).1 b hb
    obtain ⟨hsize, hsuper⟩ := hbefore.superBlock hoffset
    exact ⟨hbefore.reference.symm, hbefore.bundleId.symm, hoffset.symm, hsize.symm, hsuper.symm⟩

/-- **The blocks of one super block** are where the map says. -/
theorem OneSuperBlock.places :
    ∃ data, blockDeltaSuperBlock blockSize (p :: blocks) = some data ∧ data.size = p.2.size ∧
      data.places p.2.reference p.2.bundleId p.2.offset = (p :: blocks).map (placeOf blockSize) := by
  refine ⟨_, rfl, rfl, ?_⟩
  unfold BlockDeltaSuperBlock.places
  rw [map_map]
  refine map_congr_left (fun b hb => ?_)
  obtain ⟨href, hbundle, hoffset, hsize, hsuper⟩ := h.same horder hb
  show BlockDeltaPlace.mk _ _ _ _ _ _ (u64 (b.1 * blockSize)) _ = placeOf blockSize b
  unfold placeOf
  rw [u64_of_lt (horder.target b hb), href, hbundle, hoffset, hsize, hsuper]

end

/-- **The blocks of a read** are where the map says, and its super blocks have
increasing offsets. -/
theorem superBlockOffsets_groups (groups : List (List (ℕ × BlockMapItem)))
    (hne : [] ∉ groups) (hone : ∀ group ∈ groups, OneSuperBlock group)
    (horder : BlocksInOrder blockSize groups.flatten)
    (hnext : groups.IsChain (Follows SuperBlockTouches)) {reference bundleId : ℕ}
    (href : ∀ b ∈ groups.flatten, b.2.reference = reference ∧ b.2.bundleId = bundleId) (offset : ℕ)
    (hoffset : ∀ b ∈ groups.flatten.head?, b.2.offset = offset) :
    (superBlockOffsets offset (groups.filterMap (blockDeltaSuperBlock blockSize))).flatMap
        (fun data => data.2.places reference bundleId data.1)
      = groups.flatten.map (placeOf blockSize) ∧
    ((superBlockOffsets offset (groups.filterMap (blockDeltaSuperBlock blockSize))).map Prod.fst).IsChain
      (· < ·) := by
  induction groups generalizing offset with
  | nil => exact ⟨rfl, List.IsChain.nil⟩
  | cons group groups ih =>
    obtain ⟨p, blocks, rfl⟩ : ∃ p blocks, group = p :: blocks :=
      exists_cons_of_ne_nil (fun h => hne (h ▸ mem_cons_self))
    rw [forall_mem_cons] at hone
    rw [flatten_cons] at horder href hoffset
    have hgroup : BlocksInOrder blockSize (p :: blocks) :=
      horder.sublist (sublist_append_left _ _)
    obtain ⟨data, hdata, hsize, hplaces⟩ := hone.1.places hgroup
    obtain rfl : p.2.offset = offset := hoffset p rfl
    obtain ⟨hpref, hpbundle⟩ := href p (mem_append_left _ mem_cons_self)
    -- the next super block begins where this one ends
    have hstart : ∀ b ∈ groups.flatten.head?, b.2.offset = p.2.offset + data.size ∧
        p.2.offset < b.2.offset := by
      intro b hb
      cases groups with
      | nil => cases hb
      | cons next groups =>
        obtain ⟨q, rest, rfl⟩ : ∃ q rest, next = q :: rest :=
          exists_cons_of_ne_nil (fun h => hne (h ▸ mem_cons_of_mem _ mem_cons_self))
        obtain rfl : q = b := Option.some.inj hb
        obtain ⟨a, ha⟩ := Option.isSome_iff_exists.mp
          (show ((p :: blocks).getLast?).isSome = true by rw [getLast?_isSome]; exact cons_ne_nil _ _)
        have htouches : SuperBlockTouches a q := (isChain_cons_cons.mp hnext).1 a ha q rfl
        obtain ⟨-, -, haoffset, hasize, -⟩ := hone.1.same hgroup (mem_of_getLast? ha)
        obtain ⟨hend, hlt⟩ := htouches
        rw [haoffset, hasize] at hend
        exact ⟨by rw [hsize, hend], haoffset ▸ hlt⟩
    obtain ⟨hrest, hchain⟩ := ih (fun h => hne (mem_cons_of_mem _ h)) hone.2
      (horder.sublist (sublist_append_right _ _)) hnext.of_cons
      (fun b hb => href b (mem_append_right _ hb)) _ (fun b hb => (hstart b hb).1)
    rw [filterMap_cons_some hdata]
    unfold superBlockOffsets
    refine ⟨?_, ?_⟩
    · rw [flatMap_cons, hrest, flatten_cons, map_append, ← hplaces, hpref, hpbundle]
    · rw [map_cons]
      refine isChain_cons.mpr ⟨fun start hmem => ?_, hchain⟩
      -- the offset of the next super block, if there is one
      have hhead : ∀ (list : List BlockDeltaSuperBlock) (next : ℕ),
          next ∈ ((superBlockOffsets (p.2.offset + data.size) list).map Prod.fst).head? →
          list ≠ [] ∧ next = p.2.offset + data.size := by
        intro list next hnext
        cases list with
        | nil => cases hnext
        | cons first list => exact ⟨cons_ne_nil _ _, (Option.some.inj hnext).symm⟩
      obtain ⟨hlist, rfl⟩ := hhead _ start hmem
      have hflat : groups.flatten ≠ [] := by
        intro hnil
        refine hlist (filterMap_eq_nil_iff.mpr (fun group hgroup => ?_))
        rw [flatten_eq_nil_iff.mp hnil group hgroup]
        rfl
      obtain ⟨b, rest, hb⟩ := exists_cons_of_ne_nil hflat
      obtain ⟨heq, hlt⟩ := hstart b (by rw [hb]; rfl)
      rw [← heq]
      exact hlt

/-- What is listed for a super block can be taken out of it. -/
structure SuperBlockListOk (blockSize : ℕ) (data : BlockDeltaSuperBlock) : Prop where
  no : data.blockList.Pairwise (fun a b => a.no < b.no)
  block : ∀ b ∈ data.blockList, b.no < superBlockTotal blockSize data.superBlockSize
  total_lt : superBlockTotal blockSize data.superBlockSize < 2 ^ 32

theorem OneSuperBlock.listOk (h : OneSuperBlock (p :: blocks))
    (horder : BlocksInOrder blockSize (p :: blocks)) {data : BlockDeltaSuperBlock}
    (hdata : blockDeltaSuperBlock blockSize (p :: blocks) = some data) :
    SuperBlockListOk blockSize data := by
  cases hdata
  refine ⟨?_, fun b hb => ?_, horder.total_lt p mem_cons_self⟩
  · dsimp only
    rw [pairwise_map]
    refine List.Pairwise.imp_of_mem (fun {a b} ha hb hab => ?_) horder.before
    obtain ⟨-, -, haoffset, -, -⟩ := h.same horder ha
    obtain ⟨-, -, hboffset, -, -⟩ := h.same horder hb
    obtain hlt | ⟨-, hblock⟩ := hab.increasing
    · exact absurd (haoffset.trans hboffset.symm) (Nat.ne_of_lt hlt)
    · exact hblock
  · obtain ⟨block, hblock, rfl⟩ := mem_map.mp hb
    obtain ⟨-, -, -, -, hsuper⟩ := h.same horder hblock
    have hlt := horder.block block hblock
    rw [hsuper] at hlt
    exact hlt

/-- **Every listed block comes out once**, super block by super block. -/
theorem blockDeltaNext_writes (pipe : BlockPipe) (hn : 0 < blockSize)
    (superBlockList : List BlockDeltaSuperBlock)
    (hok : ∀ data ∈ superBlockList, SuperBlockListOk blockSize data) (contents : List (List UInt8))
    (bytes : List UInt8) (hdecode : SuperBlocksDecode pipe superBlockList contents bytes) :
    blockDeltaNext pipe blockSize superBlockList bytes
      = .ok ((superBlockList.zipWith (BlockDeltaSuperBlock.writes blockSize) contents).flatten) := by
  induction superBlockList generalizing contents bytes with
  | nil =>
    cases contents with
    | nil => rfl
    | cons content contents => exact absurd hdecode id
  | cons data superBlockList ih =>
    rw [forall_mem_cons] at hok
    cases contents with
    | nil => exact absurd hdecode id
    | cons content contents =>
      obtain ⟨hcontent, hlength, hrest⟩ := hdecode
      have hread := readSuperBlock_content hn (by rw [hlength]; exact hok.1.total_lt) hlength.symm
        hok.1.no (by rw [hlength]; exact hok.1.block) hcontent
      unfold blockDeltaNext
      rw [hread, ok_bind, ih hok.2 contents _ hrest, ok_bind]
      rfl

/-- **A planned read is right**, and its blocks are where the map says. -/
theorem blockDeltaRead_ok (pipe : BlockPipe) (hn : 0 < blockSize) {run : List (ℕ × BlockMapItem)}
    (hne : run ≠ []) (horder : BlocksInOrder blockSize run)
    (hchain : run.IsChain (fun a b => sameRead a b)) :
    ∃ read, blockDeltaRead blockSize run = some read ∧ BlockDeltaReadOk pipe blockSize read ∧
      read.places = run.map (placeOf blockSize) := by
  obtain ⟨p, blocks, rfl⟩ := exists_cons_of_ne_nil hne
  have hsplit : (p :: blocks).IsChain (fun a b =>
      if sameSuperBlock a b then a.2.offset = b.2.offset else SuperBlockTouches a b) := by
    refine (isChain_and hchain horder.before.isChain).imp (fun a b hab => ?_)
    obtain ⟨hread, hbefore⟩ := hab
    unfold sameRead at hread
    unfold sameSuperBlock SuperBlockTouches
    by_cases hoffset : a.2.offset = b.2.offset
    · rw [if_pos (decide_eq_true hoffset)]
      exact hoffset
    · rw [if_neg (by simpa using hoffset)]
      have hend : a.2.offset + a.2.size = b.2.offset := by simpa [hoffset] using hread
      exact ⟨hend, hbefore.increasing.resolve_right (fun h => hoffset h.1)⟩
  have hflat : ((p :: blocks).splitBy sameSuperBlock).flatten = p :: blocks := flatten_splitBy _ _
  have hnil : [] ∉ (p :: blocks).splitBy sameSuperBlock := nil_notMem_splitBy _ _
  have hone : ∀ group ∈ (p :: blocks).splitBy sameSuperBlock, OneSuperBlock group :=
    fun group hgroup => isChain_of_mem hsplit hgroup
  have hnext := isChain_follows hsplit
  have hlist : ∀ data ∈ ((p :: blocks).splitBy sameSuperBlock).filterMap (blockDeltaSuperBlock blockSize),
      SuperBlockListOk blockSize data := by
    intro data hdata
    obtain ⟨group, hgroup, hdata⟩ := mem_filterMap.mp hdata
    obtain ⟨q, rest, rfl⟩ : ∃ q rest, group = q :: rest :=
      exists_cons_of_ne_nil (fun h => hnil (h ▸ hgroup))
    exact (hone _ hgroup).listOk (horder.sublist (isInfix_of_mem_splitBy hgroup).sublist) hdata
  have href : ∀ b ∈ p :: blocks, b.2.reference = p.2.reference ∧ b.2.bundleId = p.2.bundleId := by
    intro b hb
    obtain rfl | hb := mem_cons.mp hb
    · exact ⟨rfl, rfl⟩
    · have hbefore := (pairwise_cons.mp horder.before).1 b hb
      exact ⟨hbefore.reference.symm, hbefore.bundleId.symm⟩
  rw [← hflat] at horder href
  obtain ⟨hplaces, hoffsets⟩ := superBlockOffsets_groups ((p :: blocks).splitBy sameSuperBlock) hnil hone
    horder hnext href p.2.offset (by rw [hflat]; rintro b ⟨⟩; rfl)
  rw [hflat] at hplaces
  refine ⟨_, rfl, ⟨hoffsets.pairwise, rfl, fun data hdata => ?_, fun contents bytes hdecode => ?_⟩,
    hplaces⟩
  · exact pairwise_map.mpr (hlist data hdata).no
  · exact blockDeltaNext_writes pipe hn _ hlist contents bytes hdecode

end Order

/-! ## The plan for a map -/

section Plan

variable {blockSize checksumSize : ℕ} {map : List BlockMapItem} {blockChecksum : Option (List UInt8)}

theorem blocksInOrder_reference (hmap : MapOfFile blockSize map) {data : BlockDeltaReference}
    (hdata : data ∈ referenceList checksumSize map blockChecksum) :
    BlocksInOrder blockSize data.blockList := by
  rw [(referenceList_inv checksumSize map blockChecksum).blockList data hdata, filter_filter]
  have hget : ∀ {p : ℕ × BlockMapItem → Bool} {b : ℕ × BlockMapItem},
      b ∈ (map.zipIdx.map Prod.swap).filter p → map[b.1]? = some b.2 :=
    fun hb => mem_blocks.mp (mem_filter.mp hb).1
  have hmem : ∀ {b : ℕ × BlockMapItem}, map[b.1]? = some b.2 → b.2 ∈ map := mem_of_getElem?
  refine ⟨?_, fun b hb => ?_, fun b hb => hmap.block _ (hmem (hget hb)), fun b hb =>
    hmap.total_lt _ (hmem (hget hb))⟩
  · refine List.Pairwise.imp_of_mem (fun {a b} ha hb hab => ?_) ((pairwise_blocks map).filter _)
    have href : a.2.reference = b.2.reference := by
      have ha := (mem_filter.mp ha).2
      have hb := (mem_filter.mp hb).2
      simp only [Bool.and_eq_true, decide_eq_true_eq] at ha hb
      exact ha.1.trans hb.1.symm
    -- what holds of every two items of the map
    have hpair : ∀ {R : BlockMapItem → BlockMapItem → Prop}, map.Pairwise R → R a.2 b.2 := by
      intro R hR
      obtain ⟨ha, ha'⟩ := List.getElem?_eq_some_iff.mp (hget ha)
      obtain ⟨hb, hb'⟩ := List.getElem?_eq_some_iff.mp (hget hb)
      rw [← ha', ← hb']
      exact pairwise_iff_getElem.mp hR _ _ ha hb hab
    exact ⟨href, hpair hmap.bundleId href, hpair hmap.increasing href, hpair hmap.superBlock href⟩
  · have hlt := (List.getElem?_eq_some_iff.mp (hget hb)).1
    exact lt_of_le_of_lt (Nat.mul_le_mul_right blockSize hlt.le) hmap.size_lt

/-- **A restore plans exactly what is needed.** Every position of the map whose
checksum is missing or different is planned once, at its offset in the file,
with the super block and the block number of the map; no other position is
planned. In each read the super blocks touch each other in strictly increasing
order, the blocks have strictly increasing numbers, and reading returns every
listed block once. -/
theorem blockDeltaNew_plan (pipe : BlockPipe) (blockSize checksumSize : ℕ) (hn : 0 < blockSize)
    (map : List BlockMapItem) (hmap : MapOfFile blockSize map) (blockChecksum : Option (List UInt8))
    (hlist : ∀ list ∈ blockChecksum, list.length / checksumSize < 2 ^ 32) :
    (∃ needed : List (ℕ × BlockMapItem), needed.Nodup ∧
      (∀ i x, (i, x) ∈ needed ↔
        map[i]? = some x ∧ ChecksumDiffers checksumSize blockChecksum i x) ∧
      ((blockDeltaNew map blockSize checksumSize blockChecksum).flatMap BlockDeltaRead.places).Perm
        (needed.map (placeOf blockSize))) ∧
      ∀ read ∈ blockDeltaNew map blockSize checksumSize blockChecksum,
        BlockDeltaReadOk pipe blockSize read := by
  have hreads : ∀ data ∈ referenceList checksumSize map blockChecksum,
      ∀ run ∈ data.blockList.splitBy sameRead, ∃ read, blockDeltaRead blockSize run = some read ∧
        BlockDeltaReadOk pipe blockSize read ∧ read.places = run.map (placeOf blockSize) := by
    intro data hdata run hrun
    have horder := blocksInOrder_reference hmap hdata
    refine blockDeltaRead_ok pipe hn (fun h => ?_)
      (horder.sublist (isInfix_of_mem_splitBy hrun).sublist) (isChain_of_mem_splitBy hrun)
    exact nil_notMem_splitBy sameRead data.blockList (h ▸ hrun)
  constructor
  · refine ⟨(map.zipIdx.map Prod.swap).filter
        (fun block => blockNeeded checksumSize blockChecksum block.1 block.2), ?_, fun i x => ?_, ?_⟩
    · exact ((pairwise_blocks map).filter _).imp (fun hlt heq => Nat.ne_of_lt hlt (congrArg Prod.fst heq))
    · rw [mem_filter, mem_blocks, blockNeeded_iff hlist]
    · refine List.Perm.trans (List.Perm.of_eq ?_)
        ((referenceList_perm checksumSize map blockChecksum).map (placeOf blockSize))
      unfold blockDeltaNew
      rw [flatMap_assoc, map_flatMap]
      refine flatMap_congr (fun data hdata => ?_)
      have hruns : ∀ runs : List (List (ℕ × BlockMapItem)),
          (∀ run ∈ runs, run ∈ data.blockList.splitBy sameRead) →
          (runs.filterMap (blockDeltaRead blockSize)).flatMap BlockDeltaRead.places
            = runs.flatten.map (placeOf blockSize) := by
        intro runs
        induction runs with
        | nil => exact fun _ => rfl
        | cons run runs ih =>
          intro hruns
          rw [forall_mem_cons] at hruns
          obtain ⟨read, hread, -, hplaces⟩ := hreads data hdata run hruns.1
          rw [filterMap_cons_some hread, flatMap_cons, flatten_cons, map_append,
            hplaces, ih hruns.2]
      rw [hruns _ (fun _ h => h), flatten_splitBy]
  · intro read hread
    obtain ⟨data, hdata, hread⟩ := mem_flatMap.mp hread
    obtain ⟨run, hrun, hread⟩ := mem_filterMap.mp hread
    obtain ⟨read', hread', hok, -⟩ := hreads data hdata run hrun
    cases hread.symm.trans hread'
    exact hok

/-- Two backups of a file: the second changed blocks 1 and 4. -/
def blockPlanSample : List BlockMapItem :=
  [⟨0, 6, 0, 0, 6, 0, [1]⟩, ⟨1, 6, 0, 0, 6, 0, [2]⟩, ⟨0, 6, 0, 6, 6, 0, [3]⟩, ⟨0, 6, 0, 6, 6, 1, [4]⟩,
    ⟨1, 6, 0, 0, 6, 1, [5]⟩, ⟨0, 6, 0, 12, 6, 1, [6]⟩]

theorem blockDeltaNew_plan_sample :
    MapOfFile 3 blockPlanSample ∧
      BlockDeltaPlace.mk 1 0 0 6 6 1 12 [5] ∈
        (blockDeltaNew blockPlanSample 3 1 (some [1, 9, 3, 4, 9])).flatMap BlockDeltaRead.places ∧
      ∀ read ∈ blockDeltaNew blockPlanSample 3 1 (some [1, 9, 3, 4, 9]),
        BlockDeltaReadOk blockPipeSample 3 read := by
  have hmap : MapOfFile 3 blockPlanSample :=
    ⟨⟨by decide, by decide, by decide, by decide⟩, by decide, by decide, by decide⟩
  have hdiffers : ChecksumDiffers 1 (some [1, 9, 3, 4, 9]) 4 ⟨1, 6, 0, 0, 6, 1, [5]⟩ := by
    rintro list ⟨⟩
    exact .inr (by decide)
  obtain ⟨⟨needed, -, hneeded, hperm⟩, hreads⟩ := blockDeltaNew_plan blockPipeSample 3 1 (by decide)
    blockPlanSample hmap (some [1, 9, 3, 4, 9]) (by decide)
  exact ⟨hmap, hperm.mem_iff.mpr (mem_map_of_mem ((hneeded 4 _).mpr ⟨rfl, hdiffers⟩)), hreads⟩

end Plan

/-! ## Backups that are kept -/

section Keep

variable (pipe : BlockPipe) (blockSize checksumSize : ℕ) (keep : ℕ → Prop)

/-- **What happens to other backups**: one is made, or one expires and its
files are removed. -/
def OtherBackup (repo repo' : BlockRepo) : Prop :=
  (∃ version written, ¬ keep version.reference ∧
    backupVersion pipe blockSize checksumSize repo version = .ok (repo', written)) ∨
  ∃ expired, ¬ keep expired ∧ repo' = { repo with
    file := fun reference bundleId => if reference = expired then [] else repo.file reference bundleId }

variable {pipe blockSize checksumSize keep} {repo repo' : BlockRepo}

theorem OtherBackup.frame (h : OtherBackup pipe blockSize checksumSize keep repo repo') {reference : ℕ}
    (hkeep : keep reference) : repo'.file reference = repo.file reference := by
  funext bundleId
  rcases h with ⟨version, written, hother, h⟩ | ⟨expired, hother, rfl⟩
  · obtain ⟨prior, -, h⟩ := ok_of_bind h
    obtain ⟨param, -, h⟩ := ok_of_bind h
    obtain ⟨result, -, h⟩ := ok_of_bind h
    rw [← (ok_inj h).1]
    refine BlockRepo.add_frame repo version result bundleId ?_
    rintro rfl
    exact hother hkeep
  · refine if_neg ?_
    rintro rfl
    exact hother hkeep

theorem reference_of_read {map : List BlockMapItem} {checksum : Option (List UInt8)} {read : BlockDeltaRead}
    (hread : read ∈ blockDeltaNew map blockSize checksumSize checksum) :
    ∃ x ∈ map, x.reference = read.reference := by
  obtain ⟨data, hdata, hread⟩ := mem_flatMap.mp hread
  obtain ⟨run, hrun, hread⟩ := mem_filterMap.mp hread
  cases run with
  | nil => cases hread
  | cons b run =>
    have hb := (referenceList_perm checksumSize map checksum).subset
      (mem_flatMap.mpr ⟨data, hdata, (isInfix_of_mem_splitBy hrun).subset mem_cons_self⟩)
    exact ⟨b.2, mem_of_getElem? (mem_blocks.mp (mem_filter.mp hb).1),
      congrArg BlockDeltaRead.reference (Option.some.inj hread)⟩

theorem blockDeltaApply_congr {file file' : ℕ → ℕ → List UInt8} (reads : List BlockDeltaRead)
    (hsame : ∀ read ∈ reads, file' read.reference = file read.reference) (pgFile : List UInt8) :
    blockDeltaApply pipe blockSize file' reads pgFile = blockDeltaApply pipe blockSize file reads pgFile := by
  induction reads generalizing pgFile with
  | nil => rfl
  | cons read reads ih =>
    rw [forall_mem_cons] at hsame
    unfold blockDeltaApply
    rw [hsame.1]
    simp only [ih hsame.2]

end Keep

/-- **A backup that is kept restores to the same**, whatever other backups are
made and expire after it. -/
theorem restoreFile_kept (pipe : BlockPipe) (blockSize checksumSize : ℕ) (keep : ℕ → Prop)
    (repo repo' : BlockRepo) (place : BlockMapPlace) (map : List BlockMapItem)
    (hplace : repo.map = some place) (hforce : MapInForce pipe blockSize checksumSize repo place map)
    (hkeep : keep place.reference ∧ ∀ x ∈ map, keep x.reference)
    (hrun : Relation.ReflTransGen (OtherBackup pipe blockSize checksumSize keep) repo repo') (size : ℕ)
    (pgFile : Option (List UInt8)) :
    restoreFile pipe blockSize checksumSize { repo' with map := repo.map } size pgFile
      = restoreFile pipe blockSize checksumSize repo size pgFile := by
  have hsame : ∀ reference, keep reference → repo'.file reference = repo.file reference := by
    induction hrun with
    | refl => exact fun _ _ => rfl
    | tail _ hstep ih => exact fun reference hkeep => (hstep.frame hkeep).trans (ih reference hkeep)
  obtain ⟨bytes, hdecode, hitems⟩ := hforce.read
  unfold restoreFile BlockRepo.readMap
  simp only [hplace, hsame _ hkeep.1, hdecode, hitems, ok_bind, pure_bind]
  refine blockDeltaApply_congr _ (fun read hread => hsame _ ?_) _
  obtain ⟨x, hx, href⟩ := reference_of_read hread
  exact href ▸ hkeep.2 x hx

/-- The full backup, after an incremental one. -/
theorem restoreFile_kept_sample : ∃ repo repo' written written',
    backupVersion blockPipeSample 3 8 .empty fullVersion = .ok (repo, written) ∧
    backupVersion blockPipeSample 3 8 repo incrVersion = .ok (repo', written') ∧
    restoreFile blockPipeSample 3 8 { repo' with map := repo.map } 9 none
      = restoreFile blockPipeSample 3 8 repo 9 none := by
  have hstart : ChainInv blockPipeSample 3 8 .empty none fullVersion.reference := trivial
  obtain ⟨repo, written, s, out, more, hfull, hbacked⟩ :=
    backupVersion_ok blockPipeSample_valid (by decide) (by decide) hstart fullVersion_valid (.inr rfl)
  obtain ⟨repo', written', -, -, -, hincr, -⟩ :=
    backupVersion_ok blockPipeSample_valid (by decide) (by decide) (hbacked.inv.mono (by decide))
      incrVersion_valid (.inl (by decide))
  refine ⟨repo, repo', written, written', hfull, hincr, ?_⟩
  have hsome := (hbacked.none_iff (by decide)).not.mpr (fun h => absurd h.1 (by decide))
  obtain ⟨map, hmap⟩ := Option.ne_none_iff_exists'.mp hsome
  have hinv := hmap ▸ hbacked.inv
  unfold ChainInv at hinv
  cases hplace : repo.map with
  | none => exact (hplace ▸ hinv).elim
  | some place =>
    obtain ⟨hlt, hforce⟩ : place.reference < _ ∧ MapInForce _ _ _ repo place map := hplace ▸ hinv
    exact hplace ▸ restoreFile_kept _ _ _ (· < fullVersion.reference + 1) repo repo' place map hplace hforce
      ⟨hlt, fun x hx => (hforce.reference x hx).trans_lt hlt⟩
      (.single (.inl ⟨incrVersion, written', by decide, hincr⟩)) 9 none

end PgxBackup
