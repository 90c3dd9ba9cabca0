import PgxBackup.BlockIncrRun
import PgxBackup.BlockMapRoundTrip

/-!
# The maps of a chain of backups

A map mixes the items of several backups, but never moves one: an item that
is kept stays at its position. Two items of one reference were therefore
made by one backup, in their order, and what that backup says of them holds
in all later maps (`MapInv`).
-/

namespace PgxBackup

open List Chunks

/-! ## Well-formed maps -/

/-- **A well-formed map.** -/
structure MapWellFormed (blockSize : ℕ) (map : List BlockMapItem) : Prop where
  increasing : map.Pairwise (fun a b => a.reference = b.reference →
    a.offset < b.offset ∨ a.offset = b.offset ∧ a.block < b.block)
  superBlock : map.Pairwise (fun a b => a.reference = b.reference → a.offset = b.offset →
    a.size = b.size ∧ a.superBlockSize = b.superBlockSize)
  block : ∀ x ∈ map, x.block < superBlockTotal blockSize x.superBlockSize
  adjacent : map.IsChain (fun a b => a.reference = b.reference →
    a.offset = b.offset ∧ b.block = a.block + 1 ∨
      b.offset = a.offset + a.size ∧ b.block = 0)

/-- **What holds of the maps of a chain**, position by position. -/
structure MapInv (blockSize checksumSize : ℕ) (map : List BlockMapItem) : Prop where
  length : map.length ≤ 2 ^ 31
  item : ∀ x ∈ map, ItemValid x
  stored : ∀ x ∈ map, x.stored checksumSize = x
  block : ∀ x ∈ map, x.block < superBlockTotal blockSize x.superBlockSize
  later : ∀ (i j : ℕ) (a b : BlockMapItem), i < j → map[i]? = some a → map[j]? = some b →
    a.reference = b.reference → a.bundleId = b.bundleId ∧ Later a b
  touches : ∀ (i : ℕ) (a b : BlockMapItem), map[i]? = some a → map[i + 1]? = some b →
    a.reference = b.reference → Touches a b

section Map

variable {blockSize checksumSize : ℕ} {map : List BlockMapItem}

section

variable (h : MapInv blockSize checksumSize map)
include h

theorem MapInv.pairwise :
    map.Pairwise (fun a b => a.reference = b.reference → a.bundleId = b.bundleId ∧ Later a b) := by
  rw [pairwise_iff_getElem]
  intro i j hi hj hij
  exact h.later i j _ _ hij (getElem?_eq_getElem hi) (getElem?_eq_getElem hj)

theorem MapInv.isChain : map.IsChain (fun a b => a.reference = b.reference → Touches a b) := by
  rw [isChain_iff_getElem]
  intro i hi
  exact h.touches i _ _ (getElem?_eq_getElem _) (getElem?_eq_getElem hi)

theorem MapInv.increasing :
    map.Pairwise (fun a b => a.reference = b.reference →
      a.offset < b.offset ∨ a.offset = b.offset ∧ a.block < b.block) := by
  refine List.Pairwise.imp_of_mem (fun {a b} ha _ hab href => ?_) h.pairwise
  obtain ⟨-, hlater⟩ := hab href
  unfold Later at hlater
  split at hlater
  · exact .inr ⟨by assumption, hlater.2.2⟩
  · exact .inl (by omega)

theorem MapInv.superBlock :
    map.Pairwise (fun a b => a.reference = b.reference → a.offset = b.offset →
      a.size = b.size ∧ a.superBlockSize = b.superBlockSize) := by
  refine h.pairwise.imp (fun hab href hoffset => ?_)
  obtain ⟨-, hlater⟩ := hab href
  unfold Later at hlater
  rw [if_pos hoffset] at hlater
  exact ⟨hlater.1, hlater.2.1⟩

theorem MapInv.wellFormed :
    MapWellFormed blockSize map where
  increasing := h.increasing
  superBlock := h.superBlock
  block := h.block
  adjacent := by
    refine h.isChain.imp (fun a b hab href => ?_)
    have htouch := hab href
    unfold Touches at htouch
    split at htouch
    · exact .inl ⟨by assumption, htouch⟩
    · exact .inr htouch

theorem MapInv.mapValid : MapValid map where
  length := h.length
  item := h.item
  increasing := h.increasing
  bundleId := h.pairwise.imp (fun hab href => (hab href).1)
  superBlock := h.superBlock
  adjacent := by
    refine h.wellFormed.adjacent.imp (fun a b hab href => ?_)
    rcases hab href with hsame | hnext
    · exact .inl hsame
    · exact .inr hnext.1
  behind := by
    refine h.pairwise.imp (fun hab href => ?_)
    obtain ⟨-, hlater⟩ := hab href
    unfold Later at hlater
    split at hlater
    · exact .inl (by assumption)
    · exact .inr hlater

theorem MapInv.map_stored : map.map (BlockMapItem.stored checksumSize) = map := by
  rw [map_congr_left h.stored, map_id']

/-- **A map of the chain is written**, no assertion fails, and it is read
back as it is. -/
theorem MapInv.readBack (hne : map ≠ []) (hblockSize : 0 < blockSize)
    (hsize : checksumSize ≤ XX_HASH_SIZE_MAX) :
    ∃ bytes, PgxBackup.blockMapWrite map blockSize checksumSize = .ok bytes ∧
      (blockMapNewRead blockSize checksumSize).run bytes = .ok (map, []) := by
  obtain ⟨bytes, hwrite, hread⟩ := h.mapValid.readBack hne hblockSize hsize
  refine ⟨bytes, hwrite, ?_⟩
  have hall := hread []
  rw [append_nil, h.map_stored] at hall
  exact hall

end

end Map

/-! ## One backup -/

section Run

variable {pipe : BlockPipe} {param : BlockIncrParam} {prior : List BlockMapItem}
variable {content file : List UInt8} {s : BlockIncrState}

variable {i : ℕ} {x : BlockMapItem}

/-- An item of this backup, once its super block is written. -/
theorem RunInv.stored_of_new (h : RunInv pipe param prior content file s)
    (hnone : s.blockOutWrite = none)
    (hx : s.blockMapOut[i]? = some x) (href : x.reference = param.reference) :
    ∃ superBlock, ItemClosed pipe param file s x (chunk param.blockSize content i) superBlock := by
  obtain ⟨-, -, superBlock, hopen | hclosed⟩ := h.new i x hx href
  · have hsome := hopen.blockOutWrite
    rw [hnone] at hsome
    cases hsome
  · exact ⟨superBlock, hclosed⟩

section

variable (hpipe : PipeValid pipe) (h : RunInv pipe param prior content file s)
include hpipe h

theorem RunInv.checksum_eq (hsizes : SizeValid param content) (hx : s.blockMapOut[i]? = some x)
    (href : x.reference = param.reference) :
    x.checksum.length = XX_HASH_SIZE_MAX ∧ x.stored param.checksumSize = x := by
  obtain ⟨-, hchecksum, -⟩ := h.new i x hx href
  have hlen : (x.checksum.take param.checksumSize).length = param.checksumSize := by
    rw [h.checksum i x hx]
    exact length_xxHashOne hpipe hsizes.checksumSize _
  have hpad : x.checksum = x.checksum.take param.checksumSize
      ++ replicate (XX_HASH_SIZE_MAX - param.checksumSize) 0 := by
    unfold memcpy at hchecksum
    rw [hlen, drop_replicate] at hchecksum
    exact hchecksum
  constructor
  · have hsize := hsizes.checksumSize
    rw [hpad, length_append, hlen, length_replicate]
    omega
  · unfold BlockMapItem.stored
    rw [← hpad]

theorem RunInv.itemValid (hnone : s.blockOutWrite = none) (hsizes : SizeValid param content)
    (hx : s.blockMapOut[i]? = some x) (href : x.reference = param.reference) : ItemValid x := by
  obtain ⟨hbundle, -, -⟩ := h.new i x hx href
  obtain ⟨superBlock, ⟨hstored, hsize, -, -⟩⟩ := h.stored_of_new hnone hx href
  have hpos := hstored.size_pos hpipe
  have hinside := hstored.inside
  have hencode := hpipe.encode_le x.reference x.offset superBlock
  rw [← hstored.size] at hencode
  -- the file is not longer than its offset in the bundle and what the filters can make of it
  have hspace := h.space
  have hblocks := hsizes.blocks
  have hbundleOffset := hsizes.bundleOffset
  have hcontent := hsizes.size
  rw [if_pos hnone, h.length] at hspace
  have hblock := hstored.block_lt
  rw [lt_total_iff hsizes.blockSize] at hblock
  have hle : x.block ≤ x.block * param.blockSize := Nat.le_mul_of_pos_right _ hsizes.blockSize
  refine ⟨?_, ?_, ?_, ?_, ?_, hpos, ?_, ?_, (h.checksum_eq hpipe hsizes hx href).1⟩
  · rw [href]
    exact hsizes.reference
  · rw [hstored.superBlockSize]
    exact length_pos_iff.mpr hstored.superBlock_ne
  · rw [hstored.superBlockSize]
    omega
  · rw [hbundle]
    exact hsizes.bundleId
  · omega
  · omega
  · omega

/-- **The map that a backup leaves.** Items of this backup are in order by
the run, those of an earlier one by the prior map. -/
theorem RunInv.mapInv (hnone : s.blockOutWrite = none) (hsizes : SizeValid param content)
    (hprior : MapInv param.blockSize param.checksumSize prior) :
    MapInv param.blockSize param.checksumSize s.blockMapOut := by
  have hmem : ∀ x ∈ s.blockMapOut, x ∈ prior ∨
      x.reference = param.reference ∧ ∃ i : ℕ, s.blockMapOut[i]? = some x := by
    intro x hx
    obtain ⟨i, hi⟩ := mem_iff_getElem?.mp hx
    by_cases href : x.reference = param.reference
    · exact .inr ⟨href, i, hi⟩
    · exact .inl (mem_of_getElem? (h.old i x hi href))
  refine ⟨?_, fun x hx => ?_, fun x hx => ?_, fun x hx => ?_, ?_, ?_⟩
  · rw [h.length]
    exact hsizes.blocks
  · rcases hmem x hx with hold | ⟨href, i, hi⟩
    · exact hprior.item x hold
    · exact h.itemValid hpipe hnone hsizes hi href
  · rcases hmem x hx with hold | ⟨href, i, hi⟩
    · exact hprior.stored x hold
    · exact (h.checksum_eq hpipe hsizes hi href).2
  · rcases hmem x hx with hold | ⟨href, i, hi⟩
    · exact hprior.block x hold
    · obtain ⟨superBlock, hclosed⟩ := h.stored_of_new hnone hi href
      rw [hclosed.stored.superBlockSize]
      exact hclosed.stored.block_lt
  · intro i j a b hij ha hb hab
    by_cases href : a.reference = param.reference
    · have hbref := hab.symm.trans href
      refine ⟨?_, h.later i j a b hij ha hb href hbref⟩
      rw [(h.new i a ha href).1, (h.new j b hb hbref).1]
    · have hbref : b.reference ≠ param.reference := fun hb => href (hab.trans hb)
      exact hprior.later i j a b hij (h.old i a ha href) (h.old j b hb hbref) hab
  · intro i a b ha hb hab
    by_cases href : a.reference = param.reference
    · exact h.touches i a b ha hb href (hab.symm.trans href)
    · have hbref : b.reference ≠ param.reference := fun hb => href (hab.trans hb)
      exact hprior.touches i a b (h.old i a ha href) (h.old (i + 1) b hb hbref) hab

end

end Run

end PgxBackup
