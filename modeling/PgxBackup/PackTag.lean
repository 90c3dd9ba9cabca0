import PgxBackup.Pack

/-!
# Tags

What the writer emits for a field and how the reader takes it apart: the bits
of the tag byte, the numbers that follow it, and data that is read in
chunks.
-/

namespace PgxBackup

open List

/-! ## Bits of the tag byte -/

/-- The four high bits of a tag byte. -/
def tagHigh (typeMap : PackTypeMap) : ℕ := if typeMap.toNat ≥ 0xF then 0xF else typeMap.toNat

theorem tag_halves : ∀ high < 16, ∀ low < 16,
    (high <<< 4 ||| low) < 256 ∧ (high <<< 4 ||| low) >>> 4 = high ∧
    (0 < high → (high <<< 4 ||| low) ≠ 0) ∧
    (∀ mask < 16, (high <<< 4 ||| low) &&& mask = low &&& mask) ∧
    ((high <<< 4 ||| low) >>> 2) &&& 0x3 = (low >>> 2) &&& 0x3 ∧
    ((high <<< 4 ||| low) >>> 3) &&& 0x1 = (low >>> 3) &&& 0x1 := by
  decide +kernel

section

variable (typeMap : PackTypeMap)
include typeMap

theorem tagHigh_pos : 0 < tagHigh typeMap := by
  cases typeMap <;> decide

theorem tagHigh_lt : tagHigh typeMap < 16 := by
  cases typeMap <;> decide

theorem tagHigh_shift :
    (if typeMap.toNat ≥ 0xF then 0xF0 else typeMap.toNat <<< 4) = tagHigh typeMap <<< 4 := by
  cases typeMap <;> decide

theorem ofNat?_toNat : PackTypeMap.ofNat? typeMap.toNat = some typeMap := by
  cases typeMap <;> rfl

theorem toNat_lt : typeMap.toNat < 19 := by
  cases typeMap <;> decide

end

theorem bits_value_in_tag : ∀ v < 2, ∀ d < 2, ∀ more : Bool,
    (v <<< 2 ||| d ||| (if more then 0x2 else 0)) < 16 ∧
    (v <<< 2 ||| d ||| (if more then 0x2 else 0)) &&& 0x8 = 0 ∧
    (v <<< 2 ||| d ||| (if more then 0x2 else 0)) &&& 0x1 = d ∧
    ((v <<< 2 ||| d ||| (if more then 0x2 else 0)) &&& 0x2 ≠ 0 ↔ more = true) ∧
    ((v <<< 2 ||| d ||| (if more then 0x2 else 0)) >>> 2) &&& 0x3 = v := by
  decide

theorem bits_value_after_tag : ∀ d < 4, ∀ more : Bool,
    (0x8 ||| d ||| (if more then 0x4 else 0)) < 16 ∧
    (0x8 ||| d ||| (if more then 0x4 else 0)) &&& 0x8 ≠ 0 ∧
    (0x8 ||| d ||| (if more then 0x4 else 0)) &&& 0x3 = d ∧
    ((0x8 ||| d ||| (if more then 0x4 else 0)) &&& 0x4 ≠ 0 ↔ more = true) := by
  decide

theorem bits_single : ∀ v < 2, ∀ d < 4, ∀ more : Bool,
    (v <<< 3 ||| d ||| (if more then 0x4 else 0)) < 16 ∧
    (v <<< 3 ||| d ||| (if more then 0x4 else 0)) &&& 0x3 = d ∧
    ((v <<< 3 ||| d ||| (if more then 0x4 else 0)) &&& 0x4 ≠ 0 ↔ more = true) ∧
    ((v <<< 3 ||| d ||| (if more then 0x4 else 0)) >>> 3) &&& 0x1 = v := by
  decide

theorem bits_none : ∀ d < 8, ∀ more : Bool,
    (d ||| (if more then 0x8 else 0)) < 16 ∧
    (d ||| (if more then 0x8 else 0)) &&& 0x7 = d ∧
    ((d ||| (if more then 0x8 else 0)) &&& 0x8 ≠ 0 ↔ more = true) := by
  decide

/-- The low bits and the high bits of a delta together. -/
theorem or_shift_back {tagId : ℕ} (shift : ℕ) (h : tagId < 2 ^ 32) :
    (tagId &&& (2 ^ shift - 1)) ||| u32 (u32 (tagId >>> shift) <<< shift) = tagId := by
  have hhigh : tagId >>> shift ≤ tagId := by
    rw [Nat.shiftRight_eq_div_pow]
    exact Nat.div_le_self _ _
  have hback : (tagId >>> shift) <<< shift ≤ tagId := by
    rw [Nat.shiftRight_eq_div_pow, Nat.shiftLeft_eq]
    exact Nat.div_mul_le_self _ _
  rw [u32_of_lt (lt_of_le_of_lt hhigh h), u32_of_lt (lt_of_le_of_lt hback h),
    Nat.and_two_pow_sub_one_eq_mod,
    Base128.or_shiftLeft_eq (Nat.mod_lt _ (Nat.two_pow_pos shift)), Nat.shiftRight_eq_div_pow]
  exact Nat.div_add_mod' _ _

/-! ## Writing -/

section Write

variable {w w' : PackWrite} {bytes : List UInt8} {n : ℕ}

/-- All bytes written so far. -/
def PackWrite.output (this : PackWrite) : List UInt8 := this.sent ++ this.buffer

/-- **What a write leaves**: the bytes are added and the containers are those
given. -/
structure Wrote (w : PackWrite) (bytes : List UInt8) (tagStack : PackTagStack) (w' : PackWrite) :
    Prop where
  write : w'.write = w.write
  output : w'.output = w.output ++ bytes
  tagStack : w'.tagStack = tagStack
  sent : w.write = none → w'.sent = w.sent

theorem Wrote.trans {first second : List UInt8} {s₁ s₂ : PackTagStack} {w₁ w₂ : PackWrite}
    (h₁ : Wrote w first s₁ w₁) (h₂ : Wrote w₁ second s₂ w₂) : Wrote w (first ++ second) s₂ w₂ where
  write := h₂.write.trans h₁.write
  output := by rw [h₂.output, h₁.output, append_assoc]
  tagStack := h₂.tagStack
  sent := fun h => (h₂.sent (h₁.write.trans h)).trans (h₁.sent h)

theorem wrote_pckWriteBuffer (w : PackWrite) (bytes : List UInt8) :
    Wrote w bytes w.tagStack (pckWriteBuffer w bytes) := by
  have hadd : w.sent ++ (w.buffer ++ bytes) = w.output ++ bytes := (append_assoc ..).symm
  unfold pckWriteBuffer
  split
  · exact ⟨rfl, hadd, rfl, fun _ => rfl⟩
  · rename_i hwrite
    have hio : w.write = none → False := fun h => by simp [h] at hwrite
    split
    · exact ⟨rfl, hadd, rfl, fun _ => rfl⟩
    · dsimp only
      split
      · exact ⟨rfl, rfl, rfl, fun h => (hio h).elim⟩
      · exact ⟨rfl, append_nil _, rfl, fun h => (hio h).elim⟩

theorem pckWriteU64Internal_ok (w : PackWrite) (h : n < 2 ^ 64) :
    ∃ w', pckWriteU64Internal w n = .ok w' ∧ Wrote w (varInt n) w.tagStack w' := by
  refine ⟨pckWriteBuffer w (varInt n), ?_, wrote_pckWriteBuffer w _⟩
  unfold pckWriteU64Internal
  have hok : cvtUInt64ToVarInt128 CVT_VARINT128_BUFFER_SIZE n = .ok (varInt n) :=
    ioWriteVarIntU64_ok h
  rw [hok, ok_bind]

theorem pckWriteU64If_ok (w : PackWrite) (condition : Bool) (h : n < 2 ^ 64) :
    ∃ w', pckWriteU64If w condition n = .ok w' ∧
      Wrote w (varIntIf condition n) w.tagStack w' := by
  cases condition with
  | true => exact pckWriteU64Internal_ok w h
  | false => exact ⟨w, rfl, rfl, (append_nil _).symm, rfl, fun _ => rfl⟩

/-- The numbers after the tag: what is left of the delta and of the value. -/
def tagTail (bits : ℕ × ℕ × ℕ) : List UInt8 :=
  varIntIf (bits.2.1 > 0) bits.2.1 ++ varIntIf (bits.2.2 > 0) bits.2.2

def tagBytes (typeMap : PackTypeMap) (tagId value : ℕ) : List UInt8 :=
  let bits := pckTagBits typeMap tagId value
  UInt8.ofNat bits.1 :: (varIntIf (typeMap.toNat ≥ 0xF) (typeMap.toNat - 0xF) ++ tagTail bits)

/-- The containers after a field was written. -/
def PackTagStack.next (s : PackTagStack) : PackTagStack :=
  { s with top := ⟨s.top.typeMap, s.top.idLast + s.top.nullTotal + 1, 0⟩ }

/-- A value fits the tag of its type: containers and packs have none, and the
value of a single bit is a bit. -/
def ValueFits (typeMap : PackTypeMap) (value : ℕ) : Prop :=
  value < 2 ^ 64 ∧ ((packTypeMapData typeMap).valueMultiBit = false →
    if (packTypeMapData typeMap).valueSingleBit then value < 2 else value = 0)

theorem pckTagBits_le (typeMap : PackTypeMap) (tagId value : ℕ) :
    (pckTagBits typeMap tagId value).2.1 ≤ tagId ∧ (pckTagBits typeMap tagId value).2.2 ≤ value := by
  have hshift : ∀ m k : ℕ, m >>> k ≤ m := fun m k => by
    rw [Nat.shiftRight_eq_div_pow]
    exact Nat.div_le_self _ _
  unfold pckTagBits
  dsimp only
  split
  · split
    · exact ⟨hshift _ _, hshift _ _⟩
    · exact ⟨hshift _ _, le_rfl⟩
  · split
    · exact ⟨hshift _ _, hshift _ _⟩
    · exact ⟨hshift _ _, le_rfl⟩

/-- **The tag of the next field** holds the number of nulls before it. -/
theorem pckWriteTag_ok {typeMap : PackTypeMap} {value : ℕ} (w : PackWrite)
    (hid : w.tagStack.top.idLast + w.tagStack.top.nullTotal + 1 < 2 ^ 32)
    (hvalue : ValueFits typeMap value) :
    ∃ w', pckWriteTag w typeMap 0 value = .ok w' ∧
      Wrote w (tagBytes typeMap w.tagStack.top.nullTotal value) w.tagStack.next w' := by
  have hassert : ((packTypeMapData typeMap).valueMultiBit || (packTypeMapData typeMap).valueSingleBit
      || decide (value = 0)) = true := by
    have hfits := hvalue.2
    cases hmulti : (packTypeMapData typeMap).valueMultiBit with
    | true => rfl
    | false =>
      cases hsingle : (packTypeMapData typeMap).valueSingleBit with
      | true => rfl
      | false =>
        rw [hsingle] at hfits
        exact decide_eq_true (hfits hmulti)
  have htagId : u32 (w.tagStack.top.idLast + w.tagStack.top.nullTotal + 1 + 2 ^ 32
      - (w.tagStack.top.idLast + 1)) = w.tagStack.top.nullTotal := by
    unfold u32
    omega
  obtain ⟨hleId, hleValue⟩ := pckTagBits_le typeMap w.tagStack.top.nullTotal value
  have htype := toNat_lt typeMap
  have hvalue64 := hvalue.1
  unfold tagBytes
  have hwriteId : pckWriteTagId w.tagStack.top 0
      = .ok (w.tagStack.top.idLast + w.tagStack.top.nullTotal + 1) := by
    unfold pckWriteTagId
    rw [if_pos rfl, u32_of_lt hid]
  unfold pckWriteTag
  dsimp only
  rw [hwriteId, ok_bind, ASSERT_of_true hassert, ok_bind, htagId]
  generalize pckTagBits typeMap w.tagStack.top.nullTotal value = bits at *
  obtain ⟨tag, tagId, rest⟩ := bits
  dsimp only at hleId hleValue ⊢
  have hw₁ := wrote_pckWriteBuffer w [UInt8.ofNat tag]
  obtain ⟨w₂, hok₂, hw₂⟩ := pckWriteU64If_ok (pckWriteBuffer w [UInt8.ofNat tag])
    (typeMap.toNat ≥ 0xF) (n := typeMap.toNat - 0xF) (by omega)
  obtain ⟨w₃, hok₃, hw₃⟩ := pckWriteU64If_ok w₂ (tagId > 0) (n := tagId) (by omega)
  obtain ⟨w₄, hok₄, hw₄⟩ := pckWriteU64If_ok w₃ (rest > 0) (n := rest) (by omega)
  rw [hok₂, ok_bind, hok₃, ok_bind, hok₄, ok_bind]
  have hw := hw₁.trans (hw₂.trans (hw₃.trans hw₄))
  refine ⟨_, rfl, hw.write, hw.output, ?_, hw.sent⟩
  show ({ w₄.tagStack with top := _ } : PackTagStack) = _
  rw [hw.tagStack, hw₃.tagStack, hw₂.tagStack, hw₁.tagStack]
  rfl

end Write

/-! ## Reading -/

section Read

variable {n : ℕ}

theorem pckReadU64Internal_ok (r : PackRead) (h : n < 2 ^ 64) (rest : List UInt8) :
    pckReadU64Internal { r with bytes := varInt n ++ rest } = .ok (n, { r with bytes := rest }) := by
  unfold pckReadU64Internal
  split
  · rw [cvtUInt64FromVarInt128_varInt h]
    rfl
  · rw [run_ioReadVarIntU64 h]
    rfl

theorem pckReadLimit_le (read : Option ℕ+) (size : ℕ) : pckReadLimit read size ≤ size := by
  cases read with
  | none => exact le_rfl
  | some bufferSize => exact Nat.min_le_left _ _

theorem pckReadLimit_pos (read : Option ℕ+) {size : ℕ} (h : 0 < size) : 0 < pckReadLimit read size := by
  cases read with
  | none => exact h
  | some bufferSize => exact lt_min h bufferSize.pos

theorem pckReadBuffer_one (r : PackRead) (byte : UInt8) (rest : List UInt8) :
    pckReadBuffer { r with bytes := byte :: rest } 1 = .ok ([byte], { r with bytes := rest }) := by
  have hlimit : pckReadLimit r.read 1 = 1 :=
    Nat.le_antisymm (pckReadLimit_le _ _) (pckReadLimit_pos _ Nat.one_pos)
  unfold pckReadBuffer
  rw [hlimit, if_neg (by simp)]
  rfl

/-- **The delta of an id** that was split between a tag and the number after
it. -/
theorem pckReadTagId_ok (r : PackRead) {tag tagId mask more shift : ℕ} (htagId : tagId < 2 ^ 32)
    (hmask : mask = 2 ^ shift - 1) (hlow : tag &&& mask = tagId &&& mask)
    (hmore : tag &&& more ≠ 0 ↔ tagId >>> shift > 0) (rest : List UInt8) :
    pckReadTagId
      { r with bytes := varIntIf (tagId >>> shift > 0) (tagId >>> shift) ++ rest } tag mask more shift
      = .ok (tagId, { r with bytes := rest }) := by
  have hhigh : tagId >>> shift ≤ tagId := by
    rw [Nat.shiftRight_eq_div_pow]
    exact Nat.div_le_self _ _
  have hback := or_shift_back shift htagId
  unfold pckReadTagId varIntIf
  by_cases hpos : tagId >>> shift > 0
  · rw [if_pos (hmore.mpr hpos), if_pos (decide_eq_true hpos),
      pckReadU64Internal_ok r (by omega), ok_bind]
    dsimp only
    rw [hlow, hmask, hback]
  · have hzero : tagId >>> shift = 0 := Nat.eq_zero_of_not_pos hpos
    rw [if_neg (fun h => hpos (hmore.mp h)), if_neg (by simpa using hpos), hlow, hmask]
    rw [hzero] at hback
    rw [show u32 (u32 0 <<< shift) = 0 by simp [u32], Nat.or_zero] at hback
    rw [hback]
    rfl

theorem and_mask_lt (tagId k : ℕ) : tagId &&& (2 ^ k - 1) < 2 ^ k := by
  rw [Nat.and_two_pow_sub_one_eq_mod]
  exact Nat.mod_lt _ (Nat.two_pow_pos k)

theorem and_one_of_lt {value : ℕ} (h : value < 2) : value &&& 0x1 = value := by
  rw [Nat.and_one_is_mod]
  exact Nat.mod_eq_of_lt h

theorem shiftRight_one_of_lt {value : ℕ} (h : value < 2) : value >>> 1 = 0 := by
  rw [Nat.shiftRight_eq_div_pow]
  exact Nat.div_eq_of_lt h

/-- A tag byte and the numbers after it are read as a delta and a value. -/
def TagReads (r : PackRead) (typeMap : PackTypeMap) (tagId value : ℕ) : Prop :=
  ∃ low < 16, (pckTagBits typeMap tagId value).1 = tagHigh typeMap <<< 4 ||| low ∧
    ∀ rest, pckReadTagValue { r with bytes := tagTail (pckTagBits typeMap tagId value) ++ rest }
        (packTypeMapData typeMap) (tagHigh typeMap <<< 4 ||| low)
      = .ok ((tagId, value), { r with bytes := rest })

section Layout

variable (r : PackRead) {typeMap : PackTypeMap} {tagId value : ℕ}

section

variable (htagId : tagId < 2 ^ 32)
include htagId

theorem tagReads_valueInTag (hmulti : (packTypeMapData typeMap).valueMultiBit = true)
    (hsmall : value < 2) : TagReads r typeMap tagId value := by
  obtain ⟨hlt, height, hmask, hmore, hback⟩ :=
    bits_value_in_tag value hsmall (tagId &&& 0x1) (and_mask_lt tagId 1) (decide (tagId >>> 1 > 0))
  simp only [decide_eq_true_eq] at hlt height hmask hmore hback
  obtain ⟨-, -, -, hlow, htwo, -⟩ := tag_halves _ (tagHigh_lt typeMap) _ hlt
  have hbits : pckTagBits typeMap tagId value = (tagHigh typeMap <<< 4 |||
      (value <<< 2 ||| tagId &&& 0x1 ||| (if tagId >>> 1 > 0 then 0x2 else 0)), tagId >>> 1, 0) := by
    unfold pckTagBits
    rw [tagHigh_shift, if_pos hmulti, if_pos hsmall, and_one_of_lt hsmall,
      shiftRight_one_of_lt hsmall]
    simp only [Nat.or_assoc]
  refine ⟨_, hlt, by rw [hbits], fun rest => ?_⟩
  rw [hbits]
  unfold pckReadTagValue
  rw [if_pos hmulti, if_neg (by rw [hlow _ (by decide), height]; simp)]
  show (pckReadTagId { r with bytes := varIntIf (tagId >>> 1 > 0) (tagId >>> 1) ++ [] ++ rest } _ _ _ _
    >>= _) = _
  rw [append_nil, pckReadTagId_ok r htagId (show 0x1 = 2 ^ 1 - 1 from rfl) (by rw [hlow _ (by decide), hmask])
    (by rw [hlow _ (by decide), hmore]), ok_bind]
  rw [htwo, hback]

theorem tagReads_valueAfterTag (hmulti : (packTypeMapData typeMap).valueMultiBit = true)
    (hlarge : ¬ value < 2) (hvalue : value < 2 ^ 64) : TagReads r typeMap tagId value := by
  obtain ⟨hlt, height, hmask, hmore⟩ :=
    bits_value_after_tag (tagId &&& 0x3) (and_mask_lt tagId 2) (decide (tagId >>> 2 > 0))
  simp only [decide_eq_true_eq] at hlt height hmask hmore
  obtain ⟨-, -, -, hlow, -⟩ := tag_halves _ (tagHigh_lt typeMap) _ hlt
  have hbits : pckTagBits typeMap tagId value = (tagHigh typeMap <<< 4 |||
      (0x8 ||| tagId &&& 0x3 ||| (if tagId >>> 2 > 0 then 0x4 else 0)), tagId >>> 2, value) := by
    unfold pckTagBits
    rw [tagHigh_shift, if_pos hmulti, if_neg hlarge]
    simp only [Nat.or_assoc]
  have hafter : varIntIf (decide (value > 0)) value = varInt value :=
    if_pos (decide_eq_true (by omega))
  refine ⟨_, hlt, by rw [hbits], fun rest => ?_⟩
  rw [hbits]
  unfold pckReadTagValue
  rw [if_pos hmulti, if_pos (by rw [hlow _ (by decide)]; exact height)]
  have htail : tagTail (tagHigh typeMap <<< 4 |||
      (0x8 ||| tagId &&& 0x3 ||| (if tagId >>> 2 > 0 then 0x4 else 0)), tagId >>> 2, value)
      = varIntIf (tagId >>> 2 > 0) (tagId >>> 2) ++ varInt value := by
    rw [← hafter]
    rfl
  rw [htail, append_assoc, pckReadTagId_ok r htagId (show 0x3 = 2 ^ 2 - 1 from rfl) (by rw [hlow _ (by decide), hmask])
    (by rw [hlow _ (by decide), hmore]), ok_bind]
  dsimp only
  rw [pckReadU64Internal_ok r hvalue, ok_bind]

theorem tagReads_singleBit (hmulti : (packTypeMapData typeMap).valueMultiBit = false)
    (hsingle : (packTypeMapData typeMap).valueSingleBit = true) (hsmall : value < 2) :
    TagReads r typeMap tagId value := by
  obtain ⟨hlt, hmask, hmore, hback⟩ :=
    bits_single value hsmall (tagId &&& 0x3) (and_mask_lt tagId 2) (decide (tagId >>> 2 > 0))
  simp only [decide_eq_true_eq] at hlt hmask hmore hback
  obtain ⟨-, -, -, hlow, -, hthree⟩ := tag_halves _ (tagHigh_lt typeMap) _ hlt
  have hbits : pckTagBits typeMap tagId value = (tagHigh typeMap <<< 4 |||
      (value <<< 3 ||| tagId &&& 0x3 ||| (if tagId >>> 2 > 0 then 0x4 else 0)), tagId >>> 2, 0) := by
    unfold pckTagBits
    rw [tagHigh_shift, if_neg (by rw [hmulti]; simp), if_pos hsingle, and_one_of_lt hsmall,
      shiftRight_one_of_lt hsmall]
    simp only [Nat.or_assoc]
  refine ⟨_, hlt, by rw [hbits], fun rest => ?_⟩
  rw [hbits]
  unfold pckReadTagValue
  rw [if_neg (by rw [hmulti]; simp), if_pos hsingle]
  show (pckReadTagId { r with bytes := varIntIf (tagId >>> 2 > 0) (tagId >>> 2) ++ [] ++ rest } _ _ _ _
    >>= _) = _
  rw [append_nil, pckReadTagId_ok r htagId (show 0x3 = 2 ^ 2 - 1 from rfl) (by rw [hlow _ (by decide), hmask])
    (by rw [hlow _ (by decide), hmore]), ok_bind]
  rw [hthree, hback]

theorem tagReads_none (hmulti : (packTypeMapData typeMap).valueMultiBit = false)
    (hsingle : (packTypeMapData typeMap).valueSingleBit = false) : TagReads r typeMap tagId 0 := by
  obtain ⟨hlt, hmask, hmore⟩ :=
    bits_none (tagId &&& 0x7) (and_mask_lt tagId 3) (decide (tagId >>> 3 > 0))
  simp only [decide_eq_true_eq] at hlt hmask hmore
  obtain ⟨-, -, -, hlow, -⟩ := tag_halves _ (tagHigh_lt typeMap) _ hlt
  have hbits : pckTagBits typeMap tagId 0 = (tagHigh typeMap <<< 4 |||
      (tagId &&& 0x7 ||| (if tagId >>> 3 > 0 then 0x8 else 0)), tagId >>> 3, 0) := by
    unfold pckTagBits
    rw [tagHigh_shift, if_neg (by rw [hmulti]; simp), if_neg (by rw [hsingle]; simp)]
    simp only [Nat.or_assoc]
  refine ⟨_, hlt, by rw [hbits], fun rest => ?_⟩
  rw [hbits]
  unfold pckReadTagValue
  rw [if_neg (by rw [hmulti]; simp), if_neg (by rw [hsingle]; simp)]
  show (pckReadTagId { r with bytes := varIntIf (tagId >>> 3 > 0) (tagId >>> 3) ++ [] ++ rest } _ _ _ _
    >>= _) = _
  rw [append_nil, pckReadTagId_ok r htagId (show 0x7 = 2 ^ 3 - 1 from rfl) (by rw [hlow _ (by decide), hmask])
    (by rw [hlow _ (by decide), hmore]), ok_bind]

/-- **Every layout of the tag is read back.** -/
theorem tagReads (hvalue : ValueFits typeMap value) : TagReads r typeMap tagId value := by
  obtain ⟨hvalue64, hfits⟩ := hvalue
  cases hmulti : (packTypeMapData typeMap).valueMultiBit with
  | true =>
    by_cases hsmall : value < 2
    · exact tagReads_valueInTag r htagId hmulti hsmall
    · exact tagReads_valueAfterTag r htagId hmulti hsmall hvalue64
  | false =>
    have hfits := hfits hmulti
    cases hsingle : (packTypeMapData typeMap).valueSingleBit with
    | true =>
      rw [hsingle, if_pos rfl] at hfits
      exact tagReads_singleBit r htagId hmulti hsingle hfits
    | false =>
      rw [hsingle, if_neg (by simp)] at hfits
      rw [hfits]
      exact tagReads_none r htagId hmulti hsingle

end

end Layout

def sizeFollows (typeMap : PackTypeMap) (value : ℕ) : Bool :=
  (packTypeMapData typeMap).size && (decide (value > 0) || !(packTypeMapData typeMap).valueSingleBit)

/-- The type is read back from the high bits of the tag and the number after
it. -/
theorem pckReadTagType_ok (r : PackRead) (typeMap : PackTypeMap) {tag : ℕ}
    (htag : tag >>> 4 = tagHigh typeMap) (rest : List UInt8) :
    pckReadTagType
      { r with bytes := varIntIf (typeMap.toNat ≥ 0xF) (typeMap.toNat - 0xF) ++ rest } tag
      = .ok (typeMap.toNat, { r with bytes := rest }) := by
  have hlt := toNat_lt typeMap
  have hhigh : ∀ t : PackTypeMap, tagHigh t = 0xF ↔ t.toNat ≥ 0xF := by
    intro t
    cases t <;> decide
  unfold pckReadTagType
  rw [htag]
  by_cases hlarge : typeMap.toNat ≥ 0xF
  · have hafter : varIntIf (typeMap.toNat ≥ 0xF) (typeMap.toNat - 0xF) = varInt (typeMap.toNat - 0xF) :=
      if_pos (decide_eq_true hlarge)
    rw [if_pos ((hhigh typeMap).mpr hlarge), hafter, pckReadU64Internal_ok r (by omega), ok_bind]
    dsimp only
    rw [u32_of_lt (n := typeMap.toNat - 0xF) (by omega), Nat.sub_add_cancel hlarge,
      u32_of_lt (by omega)]
  · have hafter : varIntIf (typeMap.toNat ≥ 0xF) (typeMap.toNat - 0xF) = [] :=
      if_neg (by simpa using hlarge)
    have hsmall : tagHigh typeMap = typeMap.toNat := if_neg hlarge
    rw [if_neg (fun h => hlarge ((hhigh typeMap).mp h)), hafter, hsmall]
    rfl

section

variable {typeMap : PackTypeMap} {value : ℕ} (r : PackRead) (tagId size : ℕ)
  (hvalue : ValueFits typeMap value)
include hvalue

/-- **The next tag is the one that was written**, with its size. The id may
overflow. -/
theorem pckReadTagNext_tag (htagId : tagId < 2 ^ 32) (hsize : size < 2 ^ 64)
    (hzero : sizeFollows typeMap value = false → size = 0) (rest : List UInt8) :
    pckReadTagNext { r with bytes := tagBytes typeMap tagId value ++
        (varIntIf (sizeFollows typeMap value) size ++ rest) }
      = .ok (true, { r with
          bytes := rest
          tagNextId := u32 (tagId + u32 (r.tagStack.top.idLast + 1))
          tagNextTypeMap := some typeMap
          tagNextValue := value
          tagNextSize := size }) := by
  obtain ⟨low, hlow, hbits, hreads⟩ := tagReads r htagId hvalue
  obtain ⟨hlt, hshift, hne, -⟩ := tag_halves _ (tagHigh_lt typeMap) _ hlow
  have hbyte : (UInt8.ofNat (pckTagBits typeMap tagId value).1).toNat
      = tagHigh typeMap <<< 4 ||| low := by
    rw [UInt8.toNat_ofNat', hbits]
    exact Nat.mod_eq_of_lt hlt
  have hsizeRead : pckReadTagSize { r with bytes := varIntIf (sizeFollows typeMap value) size ++ rest }
      (packTypeMapData typeMap) value = .ok (size, { r with bytes := rest }) := by
    show (if sizeFollows typeMap value then _ else _) = _
    cases hfollows : sizeFollows typeMap value with
    | true => exact pckReadU64Internal_ok r hsize rest
    | false =>
      rw [hzero hfollows]
      rfl
  unfold pckReadTagNext tagBytes
  rw [cons_append, pckReadBuffer_one, ok_bind]
  have hbyte_ne : ¬ (UInt8.ofNat (pckTagBits typeMap tagId value).1).toNat = 0 := by
    rw [hbyte]
    exact hne (tagHigh_pos typeMap)
  refine (if_neg hbyte_ne).trans ?_
  dsimp only [headD_cons]
  rw [hbyte, append_assoc, pckReadTagType_ok r typeMap hshift, ok_bind]
  rw [ofNat?_toNat]
  dsimp only
  rw [hreads, ok_bind]
  rw [hsizeRead, ok_bind]

theorem pckReadTagNext_field (hid : r.tagStack.top.idLast + 1 + tagId < 2 ^ 32)
    (hsize : size < 2 ^ 64) (hzero : sizeFollows typeMap value = false → size = 0)
    (rest : List UInt8) :
    pckReadTagNext { r with bytes := tagBytes typeMap tagId value ++
        (varIntIf (sizeFollows typeMap value) size ++ rest) }
      = .ok (true, { r with
          bytes := rest
          tagNextId := r.tagStack.top.idLast + 1 + tagId
          tagNextTypeMap := some typeMap
          tagNextValue := value
          tagNextSize := size }) := by
  rw [pckReadTagNext_tag r tagId size hvalue (by omega) hsize hzero,
    u32_of_lt (n := r.tagStack.top.idLast + 1) (by omega), Nat.add_comm tagId, u32_of_lt hid]

end

theorem pckReadTagNext_end (r : PackRead) (rest : List UInt8) :
    pckReadTagNext { r with bytes := 0 :: rest }
      = .ok (false, { r with bytes := rest, tagNextId := UINT_MAX }) := by
  unfold pckReadTagNext
  rw [pckReadBuffer_one, ok_bind]
  rfl

/-! ## Data in chunks -/

/-- **Chunks add up to the data**, whatever the size of the internal buffer.
`Holds read result` says what the result is after some bytes were read. -/
theorem pckReadChunks_ok {α : Type} {cat : α → List UInt8 → Except Error α}
    (Holds : List UInt8 → α → Prop) (bound : ℕ)
    (hcat : ∀ read result chunk, Holds read result → (read ++ chunk).length ≤ bound →
      ∃ result', cat result chunk = .ok result' ∧ Holds (read ++ chunk) result')
    (fuel : ℕ) (r : PackRead) (rest : List UInt8) :
    ∀ (data read : List UInt8) (result : α), Holds read result → data.length ≤ fuel →
      (read ++ data).length ≤ bound →
      ∃ result', pckReadChunks cat fuel data.length result { r with bytes := data ++ rest }
          = .ok (result', { r with bytes := rest }) ∧ Holds (read ++ data) result' := by
  induction fuel with
  | zero =>
    intro data read result hread hfuel _
    obtain rfl := eq_nil_of_length_eq_zero (Nat.le_zero.mp hfuel)
    exact ⟨result, rfl, by rwa [append_nil]⟩
  | succ fuel ih =>
    intro data read result hread hfuel hbound
    unfold pckReadChunks
    by_cases hdata : data.length = 0
    · rw [if_pos hdata]
      obtain rfl := eq_nil_of_length_eq_zero hdata
      exact ⟨result, rfl, by rwa [append_nil]⟩
    · have hlimit := pckReadLimit_le r.read data.length
      have hpos := pckReadLimit_pos r.read (Nat.pos_of_ne_zero hdata)
      have hbuffer : pckReadBuffer { r with bytes := data ++ rest } data.length
          = .ok (data.take (pckReadLimit r.read data.length),
              { r with bytes := data.drop (pckReadLimit r.read data.length) ++ rest }) := by
        unfold pckReadBuffer
        dsimp only
        rw [take_append_of_le_length hlimit, drop_append_of_le_length hlimit,
          if_neg (fun h => by
            have := congrArg length h.2
            rw [length_take, length_nil] at this
            omega)]
      rw [if_neg hdata, hbuffer, ok_bind]
      dsimp only
      generalize pckReadLimit r.read data.length = limit at *
      have hsplit : read ++ data.take limit ++ data.drop limit = read ++ data := by
        rw [append_assoc, take_append_drop]
      obtain ⟨result₁, hok, hread₁⟩ := hcat read result (data.take limit) hread (by
        rw [← hsplit, length_append] at hbound
        omega)
      obtain ⟨result', hchunks, hread'⟩ := ih (data.drop limit) (read ++ data.take limit) result₁ hread₁
        (by
          rw [length_drop]
          omega)
        (by rw [hsplit]; exact hbound)
      rw [length_drop] at hchunks
      refine ⟨result', ?_, by rwa [hsplit] at hread'⟩
      rw [hok, ok_bind, length_take, Nat.min_eq_left hlimit]
      exact hchunks

theorem strCatZN_ok (s : GrowingStr) (chunk : List UInt8)
    (h : (s.bytes ++ chunk).length ≤ STRING_SIZE_MAX) :
    ∃ s', strCatZN s chunk = .ok s' ∧ s'.bytes = s.bytes ++ chunk := by
  rw [length_append] at h
  unfold strCatZN strResize
  by_cases hempty : chunk.length = 0
  · obtain rfl := eq_nil_of_length_eq_zero hempty
    exact ⟨s, rfl, (append_nil _).symm⟩
  · rw [if_pos hempty]
    by_cases hextra : chunk.length > s.extra
    · rw [if_pos hextra, if_neg (by omega), ok_bind]
      exact ⟨_, rfl, rfl⟩
    · rw [if_neg hextra, ok_bind]
      exact ⟨_, rfl, rfl⟩

end Read

end PgxBackup
