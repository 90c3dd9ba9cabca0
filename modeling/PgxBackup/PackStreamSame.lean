import PgxBackup.PackStreamRead
import PgxBackup.PackStreamWrite

/-!
# A stream and memory

A reader of a stream and a reader of the same bytes in memory make the same
steps: the stream delivers a tag, an integer and the data of a field as if
the bytes were known, and data is only cut into other chunks. The one
function that minds the chunks is `strCatZN`: it checks the size of a string
only when it has to make room. A string that is longer than allowed is
refused in one piece, and may be accepted in several (`LongStr`).
-/

namespace PgxBackup

open List

section Same

variable {bufferSize : ℕ+} {rest : List UInt8} {r : PackRead} {c : PackReadIo} {α β α' β' : Type}
  {same' : α' → β' → Prop}

/-! ## One function after another -/

variable {memory : Except Error (α × PackRead)} {stream : Except Error (α × PackReadIo)}

variable {g : α × PackReadIo → Except Error β'}

section

variable (h : Follows rest (SameResult bufferSize rest) memory stream)
include h

theorem Follows.nextOk {f : α × PackRead → Except Error α'}
    (hnext : ∀ a r c, memory = .ok (a, r) → SameRead bufferSize rest r c →
      Follows rest same' (f (a, r)) (g (a, c))) :
    Follows rest same' (memory >>= f) (stream >>= g) := by
  refine h.bindOk (fun a b hok hsame => ?_)
  obtain ⟨a, r⟩ := a
  obtain ⟨b, c⟩ := b
  obtain ⟨hvalue, hread⟩ := hsame
  obtain rfl : a = b := hvalue
  exact hnext a r c hok hread

theorem Follows.next {f : α × PackRead → Except Error α'}
    (hnext : ∀ a r c, SameRead bufferSize rest r c → Follows rest same' (f (a, r)) (g (a, c))) :
    Follows rest same' (memory >>= f) (stream >>= g) :=
  h.nextOk (fun a r c _ => hnext a r c)

end

theorem Follows.made (value : α → β) (h : Follows rest (SameResult bufferSize rest) memory stream) :
    Follows rest (SameResult bufferSize rest) (memory.map (fun a => (value a.1, a.2)))
      (stream.map (fun a => (value a.1, a.2))) :=
  h.map (fun _ _ hsame => ⟨congrArg value hsame.1, hsame.2⟩)

namespace SameRead

section

variable (h : SameRead bufferSize rest r c)
include h

theorem tagId (tag mask more shift : ℕ) :
    Follows rest (SameResult bufferSize rest) (pckReadTagId r tag mask more shift)
      (c.pckReadTagId tag mask more shift) := by
  unfold pckReadTagId PackReadIo.pckReadTagId
  by_cases hmore : tag &&& more ≠ 0
  · rw [if_pos hmore, if_pos hmore]
    exact h.u64.next (fun _ _ _ h => .ok ⟨rfl, h⟩)
  · rw [if_neg hmore, if_neg hmore]
    exact .ok ⟨rfl, h⟩

theorem tagValue (data : PackTypeMapData) (tag : ℕ) :
    Follows rest (SameResult bufferSize rest) (pckReadTagValue r data tag) (c.pckReadTagValue data tag) := by
  unfold pckReadTagValue PackReadIo.pckReadTagValue
  cases data.valueMultiBit with
  | true =>
    rw [if_pos rfl, if_pos rfl]
    by_cases hafter : tag &&& 0x8 ≠ 0
    · rw [if_pos hafter, if_pos hafter]
      exact (h.tagId _ _ _ _).next (fun _ _ _ h => h.u64.next (fun _ _ _ h => .ok ⟨rfl, h⟩))
    · rw [if_neg hafter, if_neg hafter]
      exact (h.tagId _ _ _ _).next (fun _ _ _ h => .ok ⟨rfl, h⟩)
  | false =>
    rw [if_neg Bool.false_ne_true, if_neg Bool.false_ne_true]
    cases data.valueSingleBit with
    | true =>
      rw [if_pos rfl, if_pos rfl]
      exact (h.tagId _ _ _ _).next (fun _ _ _ h => .ok ⟨rfl, h⟩)
    | false =>
      rw [if_neg Bool.false_ne_true, if_neg Bool.false_ne_true]
      exact (h.tagId _ _ _ _).next (fun _ _ _ h => .ok ⟨rfl, h⟩)

theorem tagType (tag : ℕ) :
    Follows rest (SameResult bufferSize rest) (pckReadTagType r tag) (c.pckReadTagType tag) := by
  unfold pckReadTagType PackReadIo.pckReadTagType
  by_cases hafter : tag >>> 4 = 0xF
  · rw [if_pos hafter, if_pos hafter]
    exact h.u64.next (fun _ _ _ h => .ok ⟨rfl, h⟩)
  · rw [if_neg hafter, if_neg hafter]
    exact .ok ⟨rfl, h⟩

theorem tagSize (data : PackTypeMapData) (value : ℕ) :
    Follows rest (SameResult bufferSize rest) (pckReadTagSize r data value) (c.pckReadTagSize data value) := by
  unfold pckReadTagSize PackReadIo.pckReadTagSize
  by_cases hsize : (data.size && (decide (value > 0) || !data.valueSingleBit)) = true
  · rw [if_pos hsize, if_pos hsize]
    exact h.u64
  · rw [if_neg hsize, if_neg hsize]
    exact .ok ⟨rfl, h⟩

/-- **A tag.** -/
theorem tagNext :
    Follows rest (SameResult bufferSize rest) (pckReadTagNext r) c.pckReadTagNext := by
  refine h.readByte.next (fun bytes r c h => ?_)
  dsimp only
  by_cases hzero : (bytes.headD 0).toNat = 0
  · rw [if_pos hzero, if_pos hzero]
    exact .ok ⟨rfl, h.withTags (fun r => { r with tagNextId := UINT_MAX }) (fun _ => rfl)
      (fun _ => rfl) (fun _ _ _ => rfl)⟩
  · rw [if_neg hzero, if_neg hzero]
    refine (h.tagType _).next (fun typeMap r c h => ?_)
    cases PackTypeMap.ofNat? typeMap with
    | none => exact .error _ _
    | some typeMap =>
      refine (h.tagValue _ _).next (fun value r c h => ?_)
      refine (h.tagSize _ _).next (fun size r c h => ?_)
      refine .ok ⟨rfl, ?_⟩
      exact h.withTags (fun r => { r with
        tagNextId := u32 (value.1 + u32 (r.tagStack.top.idLast + 1))
        tagNextTypeMap := some typeMap
        tagNextValue := value.2
        tagNextSize := size }) (fun _ => rfl) (fun _ => rfl) (fun _ _ _ => rfl)

theorem tagLook : Follows rest (SameRead bufferSize rest) (pckReadTagLook r) c.pckReadTagLook := by
  unfold pckReadTagLook PackReadIo.pckReadTagLook
  rw [h.tagNextId]
  by_cases hread : r.tagNextId = 0
  · rw [if_pos hread, if_pos hread]
    exact h.tagNext.map (fun _ _ hsame => hsame.2)
  · rw [if_neg hread, if_neg hread]
    exact .ok h

theorem tagFound (typeMap : Option PackTypeMap) :
    Follows rest (SameRead bufferSize rest) (pckReadTagFound r typeMap) (c.pckReadTagFound typeMap) := by
  unfold PackReadIo.pckReadTagFound pckReadTagFound
  cases typeMap with
  | none => exact .ok h
  | some typeMap =>
    dsimp only
    rw [h.tagNextTypeMap, h.tagNextId]
    by_cases htype : r.tagNextTypeMap ≠ some typeMap
    · rw [if_pos htype, if_pos htype]
      exact .error _ _
    · rw [if_neg htype, if_neg htype]
      exact .ok (h.withTags (fun tags => { tags.setIdLast r.tagNextId with tagNextId := 0 })
        (fun _ => rfl) (fun _ => rfl) (fun _ _ _ => rfl))

/-- Data that is not needed is read all the same. -/
theorem consumeBuffer :
    Follows rest (SameRead bufferSize rest) (pckReadConsumeBuffer r) c.pckReadConsumeBuffer := by
  unfold pckReadConsumeBuffer PackReadIo.pckReadConsumeBuffer
  rw [h.tagNextSize]
  refine (h.chunks (fun _ _ => True) r.tagNextSize (fun _ _ _ _ _ => ⟨(), rfl, trivial⟩) trivial
    r.tagNextSize (fun _ => le_rfl)).bind (fun a b hsame => ?_)
  exact .ok (hsame.2.withTags (fun tags => { tags with tagNextSize := 0 }) (fun _ => rfl)
    (fun _ => rfl) (fun _ _ _ => rfl))

end

/-- **The search for an id.** -/
theorem tagLoop (typeMap : Option PackTypeMap) (id fuel fuel' : ℕ) (hfuel : fuel ≤ fuel')
    (hend : rest = [] → fuel' = fuel) (h : SameRead bufferSize rest r c) :
    Follows rest (SameRead bufferSize rest) (pckReadTagLoop typeMap id fuel r)
      (c.pckReadTagLoop typeMap id fuel') := by
  induction fuel generalizing fuel' r c with
  | zero =>
    refine ⟨nofun, fun hrest _ _ => ?_⟩
    rw [hend hrest]
    exact ⟨_, rfl⟩
  | succ fuel ih =>
    obtain ⟨fuel', rfl⟩ := Nat.exists_eq_add_of_le' (Nat.le_trans (Nat.le_add_left 1 fuel) hfuel)
    refine h.tagLook.bind (fun r c h => ?_)
    rw [h.tagNextId]
    by_cases hbehind : id < r.tagNextId
    · rw [if_pos hbehind, if_pos hbehind]
      exact .ok h
    · rw [if_neg hbehind, if_neg hbehind]
      by_cases hfound : id = r.tagNextId
      · rw [if_pos hfound, if_pos hfound]
        exact h.tagFound typeMap
      · rw [if_neg hfound, if_neg hfound]
        refine h.consumeBuffer.bind (fun r c h => ?_)
        rw [h.tagNextId]
        refine ih fuel' (Nat.le_of_succ_le_succ hfuel)
          (fun hrest => Nat.succ.inj (hend hrest)) ?_
        exact h.withTags (fun tags => { tags.setIdLast r.tagNextId with tagNextId := 0 })
          (fun _ => rfl) (fun _ => rfl) (fun _ _ _ => rfl)

section

variable (h : SameRead bufferSize rest r c)
include h

theorem length_le : r.bytes.length ≤ c.io.bytes.length := by
  rw [h.bytes, length_append]
  exact Nat.le_add_right _ _

theorem length_eq (hrest : rest = []) : c.io.bytes.length = r.bytes.length := by
  rw [h.bytes, hrest, append_nil]

/-- **`pckReadTag`.** -/
theorem tag (id : ℕ) (typeMap : Option PackTypeMap) :
    Follows rest (SameResult bufferSize rest) (pckReadTag r id typeMap) (c.pckReadTag id typeMap) := by
  unfold pckReadTag PackReadIo.pckReadTag
  have hrequest : pckReadTagRequest c.tags id = pckReadTagRequest r id := by
    unfold pckReadTagRequest
    rw [h.tagStack]
  rw [hrequest]
  refine (follows_self _).bind (fun id _ hid => ?_)
  rw [← hid]
  refine (tagLoop typeMap id _ _ (Nat.add_le_add_right h.length_le 2)
    (fun hrest => congrArg (· + 2) (h.length_eq hrest)) h).bind (fun r c h => ?_)
  rw [h.tagNextValue]
  exact .ok ⟨rfl, h⟩

theorem nullInternal (id : ℕ) :
    Follows rest (SameResult bufferSize rest) (pckReadNullInternal r id) (c.pckReadNullInternal id) := by
  refine (h.tag id none).next (fun tag r c h => ?_)
  dsimp only
  rw [h.tagNextId]
  by_cases hnull : tag.1 < r.tagNextId
  · rw [if_pos hnull, if_pos hnull]
    exact .ok ⟨rfl, h.withTags (fun tags => tags.setIdLast tag.1) (fun _ => rfl) (fun _ => rfl)
      (fun _ _ _ => rfl)⟩
  · rw [if_neg hnull, if_neg hnull]
    exact .ok ⟨rfl, h⟩

theorem null (id : ℕ) :
    Follows rest (SameResult bufferSize rest) (pckReadNull r id) (c.pckReadNull id) := by
  exact (h.nullInternal id).next (fun _ _ _ h => .ok ⟨rfl, h⟩)

theorem begin (id : ℕ) (typeMap : PackTypeMap) :
    Follows rest (SameRead bufferSize rest) (pckReadBegin r id typeMap) (c.pckReadBegin id typeMap) := by
  refine (h.tag id (some typeMap)).next (fun _ r c h => .ok ?_)
  exact h.withTags (fun tags => { tags with tagStack := pckTagStackPush tags.tagStack typeMap })
    (fun _ => rfl) (fun _ => rfl) (fun _ _ _ => rfl)

theorem containerEnd (typeMap : PackTypeMap) :
    Follows rest (SameRead bufferSize rest) (pckReadContainerEnd r typeMap) (c.pckReadContainerEnd typeMap) := by
  unfold pckReadContainerEnd PackReadIo.pckReadContainerEnd
  rw [h.tagStack]
  refine (follows_self _).bind (fun _ _ _ => ?_)
  refine (h.tag (UINT_MAX - 1) none).next (fun _ r c h => .ok ?_)
  exact h.withTags
    (fun tags => { tags with tagStack := pckTagStackPop tags.tagStack, tagNextId := 0 })
    (fun _ => rfl) (fun _ => rfl) (fun _ _ _ => rfl)

theorem «end» : Follows rest (SameRead bufferSize rest) (pckReadEnd r) c.pckReadEnd := by
  unfold pckReadEnd PackReadIo.pckReadEnd
  rw [h.tagStack]
  by_cases hopen : r.tagStack.below ≠ []
  · rw [if_pos hopen, if_pos hopen]
    exact .error _ _
  · rw [if_neg hopen, if_neg hopen]
    exact (h.tag (UINT_MAX - 1) none).next (fun _ r c h => .ok h)

/-- **A field.** The readers after its tag are given to the function that reads
the value. -/
theorem field (typeMap : PackTypeMap) (id : ℕ) (defaultValue : α)
    (f : PackRead → ℕ → Except Error (α × PackRead))
    (g : PackReadIo → ℕ → Except Error (α × PackReadIo))
    (hvalue : ∀ id' r₁ tag r₂ c₂, pckReadNullInternal r id = .ok ((false, id'), r₁) →
      pckReadTag r₁ id' (some typeMap) = .ok (tag, r₂) → SameRead bufferSize rest r₂ c₂ →
      Follows rest (SameResult bufferSize rest) (f r₂ tag.2) (g c₂ tag.2)) :
    Follows rest (SameResult bufferSize rest) (pckReadField typeMap f r id defaultValue)
      (c.pckReadField typeMap g id defaultValue) := by
  refine (h.nullInternal id).nextOk (fun result r₁ c₁ hnull h₁ => ?_)
  obtain ⟨result, id'⟩ := result
  dsimp only
  cases result with
  | true =>
    rw [if_pos rfl, if_pos rfl]
    exact .ok ⟨rfl, h₁⟩
  | false =>
    rw [if_neg Bool.false_ne_true, if_neg Bool.false_ne_true]
    exact (h₁.tag id' (some typeMap)).nextOk
      (fun tag r₂ c₂ htag h₂ => hvalue id' r₁ tag r₂ c₂ hnull htag h₂)

theorem number (typeMap : PackTypeMap) (value : ℕ → α) (id : ℕ) (defaultValue : α) :
    Follows rest (SameResult bufferSize rest)
      (pckReadField typeMap (fun this tagValue => .ok (value tagValue, this)) r id defaultValue)
      (c.pckReadNumber typeMap value id defaultValue) :=
  h.field typeMap id defaultValue _ _ (fun _ _ _ _ _ _ _ h => .ok ⟨rfl, h⟩)

theorem buf : Follows rest (SameResult bufferSize rest) (pckReadBuf r) c.pckReadBuf := by
  unfold pckReadBuf PackReadIo.pckReadBuf
  rw [h.tagNextSize]
  refine (h.chunks (fun read result => result = read) r.tagNextSize
    (fun read result chunk hread _ => ⟨_, rfl, congrArg (· ++ chunk) hread⟩) rfl
    r.tagNextSize (fun _ => le_rfl)).mono (fun a b hsame => ?_)
  obtain ⟨⟨read, ha, hb⟩, hread⟩ := hsame
  exact ⟨ha.trans hb.symm, hread⟩

theorem bin (id : ℕ) :
    Follows rest (SameResult bufferSize rest) (pckReadBin r id) (c.pckReadBin id) := by
  refine h.field .bin id none _ _ (fun _ _ tag r c _ _ h => ?_)
  by_cases hvalue : tag.2 ≠ 0
  · rw [if_pos hvalue, if_pos hvalue]
    exact h.buf.made some
  · rw [if_neg hvalue, if_neg hvalue]
    exact .ok ⟨rfl, h⟩

theorem pack (id : ℕ) :
    Follows rest (SameResult bufferSize rest) (pckReadPack r id) (c.pckReadPack id) :=
  h.field .pack id none _ _ (fun _ _ _ _ _ _ _ h => h.buf.made some)

end

end SameRead

/-! ## Strings -/

/-- The field with an id is a string that is longer than strings may be, and
all its bytes are there. -/
def LongStr (r : PackRead) (id : ℕ) : Prop :=
  ∃ id' r₁ tag r₂, pckReadNullInternal r id = .ok ((false, id'), r₁) ∧
    pckReadTag r₁ id' (some .str) = .ok (tag, r₂) ∧ tag.2 ≠ 0 ∧
      STRING_SIZE_MAX < r₂.tagNextSize ∧ r₂.tagNextSize ≤ r₂.bytes.length

/-- One of the strings of a list is too long. -/
def LongStrLst : ℕ → PackRead → Prop
  | 0, _ => False
  | fuel + 1, r => ∃ r₁, pckReadNull r 0 = .ok (false, r₁) ∧
      (LongStr r₁ 0 ∨ ∃ value r₂, pckReadStr r₁ 0 none = .ok (value, r₂) ∧ LongStrLst fuel r₂)

/-- A read call comes upon a string that is too long. -/
def PckReadCall.ReadsLong (r : PackRead) (id : ℕ) : PckReadCall → Prop
  | .str _ => LongStr r id
  | .strLst => ∃ id' r₁ r₂, pckReadNullInternal r id = .ok ((false, id'), r₁) ∧
      pckReadArrayBegin r₁ id' = .ok r₂ ∧ LongStrLst (r₂.bytes.length + 1) r₂
  | _ => False

namespace SameRead

/-- **A string** that is not too long. -/
theorem str (h : SameRead bufferSize rest r c) (id : ℕ) (defaultValue : Option (List UInt8))
    (hlong : ¬ LongStr r id) :
    Follows rest (SameResult bufferSize rest) (pckReadStr r id defaultValue) (c.pckReadStr id defaultValue) := by
  refine h.field .str id defaultValue _ _ (fun id' r₁ tag r₂ c₂ hnull htag h₂ => ?_)
  by_cases hvalue : tag.2 ≠ 0
  · rw [if_pos hvalue, if_pos hvalue, h₂.tagNextSize]
    have hsize : r₂.tagNextSize ≤ r₂.bytes.length → r₂.tagNextSize ≤ STRING_SIZE_MAX := by
      intro hlength
      by_contra hgt
      exact hlong ⟨id', r₁, tag, r₂, hnull, htag, hvalue, Nat.lt_of_not_le hgt, hlength⟩
    refine (h₂.chunks (fun read s => s.bytes = read) STRING_SIZE_MAX
      (fun read s chunk hread hbound => ?_) rfl r₂.tagNextSize hsize).map (fun a b hsame => ?_)
    · rw [← hread] at hbound ⊢
      exact strCatZN_ok s chunk hbound
    · obtain ⟨⟨read, ha, hb⟩, hread⟩ := hsame
      exact ⟨congrArg some (ha.trans hb.symm), hread⟩
  · rw [if_neg hvalue, if_neg hvalue]
    exact .ok ⟨rfl, h₂⟩

theorem strLstLoop (fuel fuel' : ℕ) (hfuel : fuel ≤ fuel') (hend : rest = [] → fuel' = fuel)
    (h : SameRead bufferSize rest r c) (hlong : ¬ LongStrLst fuel r) :
    Follows rest (SameResult bufferSize rest) (pckReadStrLstLoop fuel r) (c.pckReadStrLstLoop fuel') := by
  induction fuel generalizing fuel' r c with
  | zero =>
    refine ⟨nofun, fun hrest _ _ => ?_⟩
    rw [hend hrest]
    exact ⟨_, rfl⟩
  | succ fuel ih =>
    obtain ⟨fuel', rfl⟩ := Nat.exists_eq_add_of_le' (Nat.le_trans (Nat.le_add_left 1 fuel) hfuel)
    refine (h.null 0).nextOk (fun result r₁ c₁ hnull h₁ => ?_)
    dsimp only
    cases result with
    | true =>
      rw [if_pos rfl, if_pos rfl]
      exact .ok ⟨rfl, h₁⟩
    | false =>
      rw [if_neg Bool.false_ne_true, if_neg Bool.false_ne_true]
      refine (h₁.str 0 none (fun hstr => hlong ⟨r₁, hnull, .inl hstr⟩)).nextOk
        (fun value r₂ c₂ hstr h₂ => ?_)
      refine (ih fuel' (Nat.le_of_succ_le_succ hfuel) (fun hrest => Nat.succ.inj (hend hrest)) h₂
        (fun hlst => hlong ⟨r₁, hnull, .inr ⟨value, r₂, hstr, hlst⟩⟩)).next (fun _ _ _ h => ?_)
      exact .ok ⟨rfl, h⟩

theorem strLst (h : SameRead bufferSize rest r c) (id : ℕ) (hlong : ¬ PckReadCall.strLst.ReadsLong r id) :
    Follows rest (SameResult bufferSize rest) (pckReadStrLst r id) (c.pckReadStrLst id) := by
  refine (h.nullInternal id).nextOk (fun result r₁ c₁ hnull h₁ => ?_)
  obtain ⟨result, id'⟩ := result
  dsimp only
  cases result with
  | true =>
    rw [if_pos rfl, if_pos rfl]
    exact .ok ⟨rfl, h₁⟩
  | false =>
    rw [if_neg Bool.false_ne_true, if_neg Bool.false_ne_true]
    refine (h₁.begin id' .array).bindOk (fun r₂ c₂ hbegin h₂ => ?_)
    refine (strLstLoop _ _ (Nat.add_le_add_right h₂.length_le 1)
      (fun hrest => congrArg (· + 1) (h₂.length_eq hrest)) h₂
      (fun hlst => hlong ⟨id', r₁, r₂, hnull, hbegin, hlst⟩)).next (fun values r₃ c₃ h₃ => ?_)
    exact (h₃.containerEnd .array).bind (fun _ _ h => .ok ⟨rfl, h⟩)

/-- **A read call.** -/
theorem call (h : SameRead bufferSize rest r c) (id : ℕ) (call : PckReadCall) (hlong : ¬ call.ReadsLong r id) :
    Follows rest (SameResult bufferSize rest) (pckReadCallId r id call) (c.pckReadCallId id call) := by
  have hvalue : ∀ {α : Type} (value : α → PckValue) {memory stream},
      Follows rest (SameResult bufferSize rest) memory stream →
        Follows rest (SameResult bufferSize rest) (pckValue value memory) (PackReadIo.value value stream) := by
    intro α value memory stream hread
    have hmade := hread.made value
    cases memory with
    | error error => exact hmade
    | ok a => exact hmade
  cases call with
  | null => exact hvalue .null (h.null id)
  | bool defaultValue => exact hvalue .bool (h.number .bool (fun n => decide (n ≠ 0)) id _)
  | i32 defaultValue => exact hvalue .i32 (h.number .i32 _ id _)
  | i64 defaultValue => exact hvalue .i64 (h.number .i64 _ id _)
  | mode defaultValue => exact hvalue .mode (h.number .mode _ id _)
  | u32 defaultValue => exact hvalue .u32 (h.number .u32 _ id _)
  | u64 defaultValue => exact hvalue .u64 (h.number .u64 _ id _)
  | strId defaultValue => exact hvalue .strId (h.number .strId _ id _)
  | time defaultValue => exact hvalue .time (h.number .time _ id _)
  | str defaultValue => exact hvalue .str (h.str id _ hlong)
  | bin => exact hvalue .bin (h.bin id)
  | pack => exact hvalue .pack (h.pack id)
  | strLst => exact hvalue .strLst (h.strLst id hlong)
  | arrayBegin => exact (h.begin id .array).bind (fun _ _ h => .ok ⟨rfl, h⟩)
  | arrayEnd => exact (h.containerEnd .array).bind (fun _ _ h => .ok ⟨rfl, h⟩)
  | objBegin => exact (h.begin id .obj).bind (fun _ _ h => .ok ⟨rfl, h⟩)
  | objEnd => exact (h.containerEnd .obj).bind (fun _ _ h => .ok ⟨rfl, h⟩)

end SameRead

/-! ## Runs -/

/-- A read call, or `pckReadEnd`. -/
inductive PckReadStep
  | call (id : ℕ) (call : PckReadCall)
  | end

/-- Make read calls up to the first that fails: the values, and the reader after
the last call or the error. -/
def readRun {ρ : Type} (step : ρ → PckReadStep → Except Error (PckValue × ρ)) (this : ρ) :
    List PckReadStep → List PckValue × Except Error ρ
  | [] => ([], .ok this)
  | call :: calls =>
    match step this call with
    | .error error => ([], .error error)
    | .ok (value, this) =>
      let (values, result) := readRun step this calls
      (value :: values, result)

def PackRead.step (this : PackRead) : PckReadStep → Except Error (PckValue × PackRead)
  | .call id call => pckReadCallId this id call
  | .end => do .ok (.void, ← pckReadEnd this)

def PackReadIo.step (this : PackReadIo) : PckReadStep → Except Error (PckValue × PackReadIo)
  | .call id call => this.pckReadCallId id call
  | .end => do .ok (.void, ← this.pckReadEnd)

/-- The step does not come upon a string that is too long. -/
def PckReadStep.Short (r : PackRead) : PckReadStep → Prop
  | .call id read => ¬ read.ReadsLong r id
  | .end => True

/-- No call of a run in memory comes upon a string that is too long. -/
def ShortRun (r : PackRead) : List PckReadStep → Prop
  | [] => True
  | step :: steps => step.Short r ∧ ∀ value r', r.step step = .ok (value, r') → ShortRun r' steps

/-- **Two runs agree**: the same values, and neither fails or both fail at the
same call. The stream is left where the pack in memory is left, with what is
behind the pack. -/
def RunsAgree (rest : List UInt8) (memory : List PckValue × Except Error PackRead)
    (stream : List PckValue × Except Error PackReadIo) : Prop :=
  Follows rest (fun r c => c.io.bytes = r.bytes ++ rest) memory.2 stream.2 ∧
    ((∃ r, memory.2 = .ok r) ∨ rest = [] → stream.1 = memory.1)

theorem SameRead.step (h : SameRead bufferSize rest r c) {step : PckReadStep} (hshort : step.Short r) :
    Follows rest (SameResult bufferSize rest) (r.step step) (c.step step) := by
  cases step with
  | call id call => exact h.call id call hshort
  | «end» => exact h.end.bind (fun _ _ h => .ok ⟨rfl, h⟩)

/-- **A stream is read like the same bytes in memory.** -/
theorem readRun_agree (steps : List PckReadStep) (h : SameRead bufferSize rest r c) (hshort : ShortRun r steps) :
    RunsAgree rest (readRun PackRead.step r steps) (readRun PackReadIo.step c steps) := by
  induction steps generalizing r c with
  | nil => exact ⟨.ok h.bytes, fun _ => rfl⟩
  | cons step steps ih =>
    have hstep := h.step hshort.1
    unfold readRun
    cases hmemory : r.step step with
    | error error =>
      by_cases hrest : rest = []
      · obtain ⟨error', hstream⟩ := hstep.2 hrest error hmemory
        rw [hstream]
        exact ⟨.error _ _, fun _ => rfl⟩
      · refine ⟨⟨nofun, fun h => absurd h hrest⟩, fun hok => ?_⟩
        obtain ⟨r', hok⟩ | hnil := hok
        · cases hok
        · exact absurd hnil hrest
    | ok result =>
      obtain ⟨value, r'⟩ := result
      obtain ⟨b, hstream, hvalue, hread⟩ := hstep.1 _ hmemory
      obtain ⟨value', c'⟩ := b
      obtain rfl : value = value' := hvalue
      rw [hstream]
      obtain ⟨hleft, hvalues⟩ := ih hread (hshort.2 value r' hmemory)
      exact ⟨hleft, fun hok => congrArg (value :: ·) (hvalues hok)⟩

end Same

/-- **The streaming and the in-memory pack paths agree**: what is written is the
same for every sequence of writes, and what is read is the same as long as no
string is longer than strings may be. Nothing behind a pack is read with it. -/
theorem packStream_agrees_of_shortRun (bufferSize : ℕ+) :
    (∀ calls : List (ℕ × PckWriteCall),
      PacksSame (pckWriteRun (pckWriteNew none) calls)
        (pckWriteRun (pckWriteNew (some bufferSize)) calls)) ∧
      ∀ (block : Bool) (ioBufferSize : ℕ+) (driver : List (List UInt8))
        (bytes rest : List UInt8) (steps : List PckReadStep), driver.flatten = bytes ++ rest →
        ShortRun (pckReadNew none bytes) steps →
          RunsAgree rest (readRun PackRead.step (pckReadNew none bytes) steps)
            (readRun PackReadIo.step
              (pckReadNewIo bufferSize (ioReadNew block ioBufferSize driver)) steps) := by
  refine ⟨fun calls => pckWriteRun_same calls (pckWriteNew_same bufferSize), ?_⟩
  intro block ioBufferSize driver bytes rest steps hdriver hshort
  refine readRun_agree steps ⟨rfl, rfl, rfl, ?_, ?_⟩ hshort
  · exact IoReadState.ioReadNew_valid block ioBufferSize driver
  · exact (IoReadState.ioReadNew_bytes block ioBufferSize driver).trans hdriver

/-! ## A string that is too long -/

section Long

variable {r : PackRead}

theorem pckReadChunks_long (hread : r.read = none) (fuel size : ℕ) (hlong : STRING_SIZE_MAX < size)
    (hlength : size ≤ r.bytes.length) :
    ∃ error, pckReadChunks strCatZN (fuel + 1) size strNew r = .error error := by
  have hlimit : pckReadLimit r.read size = size := by
    rw [hread]
    rfl
  have hchunk : (r.bytes.take size).length = size := length_take_of_le hlength
  have hpos : 0 < size := Nat.zero_lt_of_lt hlong
  unfold pckReadChunks pckReadBuffer
  rw [if_neg (Nat.ne_of_gt hpos), hlimit]
  rw [if_neg (fun hempty => by rw [hempty.2] at hchunk; exact absurd hchunk (Nat.ne_of_lt hpos)),
    ok_bind]
  unfold strCatZN strResize
  dsimp only
  rw [hchunk, if_pos (Nat.ne_of_gt hpos), if_pos (show size > strNew.extra from hpos),
    if_pos (show strNew.bytes.length + size > STRING_SIZE_MAX by
      show 0 + size > _
      omega)]
  exact ⟨_, rfl⟩

/-- Whether a string of a size can be made of at most `n` chunks: only its length
and the space left matter. -/
def strGrows (bufferSize : ℕ) : ℕ → ℕ → ℕ → ℕ → Bool
  | 0, size, _, _ => size = 0
  | n + 1, size, length, extra =>
    let chunk := min size bufferSize
    if size = 0 then true
    else if chunk > extra then
      if length + chunk > STRING_SIZE_MAX then false
      else
        strGrows bufferSize n (size - chunk) (length + chunk)
          (max (chunk + (length + chunk) / 2) STRING_EXTRA_MIN - chunk)
    else strGrows bufferSize n (size - chunk) (length + chunk) (extra - chunk)

theorem pckReadChunks_grows {bufferSize : ℕ+} (hread : r.read = some bufferSize) (n fuel size : ℕ)
    (s : GrowingStr) (hfuel : size ≤ fuel) (hlength : size ≤ r.bytes.length)
    (hgrows : strGrows bufferSize n size s.bytes.length s.extra = true) :
    ∃ s' r', pckReadChunks strCatZN fuel size s r = .ok (s', r') ∧
      s'.bytes = s.bytes ++ r.bytes.take size := by
  induction n generalizing fuel size s r with
  | zero =>
    obtain rfl : size = 0 := of_decide_eq_true hgrows
    refine ⟨s, r, ?_, (append_nil _).symm⟩
    cases fuel with
    | zero => rfl
    | succ fuel => rfl
  | succ n ih =>
    unfold strGrows at hgrows
    by_cases hsize : size = 0
    · obtain rfl := hsize
      refine ⟨s, r, ?_, (append_nil _).symm⟩
      cases fuel with
      | zero => rfl
      | succ fuel => rfl
    · obtain ⟨fuel, rfl⟩ : ∃ k, fuel = k + 1 := Nat.exists_eq_succ_of_ne_zero (by omega)
      have hlimit : pckReadLimit r.read size = min size bufferSize := by
        rw [hread]
        rfl
      rw [if_neg hsize] at hgrows
      have hpos : 0 < min size (bufferSize : ℕ) :=
        Nat.lt_min.mpr ⟨Nat.pos_of_ne_zero hsize, bufferSize.pos⟩
      have hle : min size (bufferSize : ℕ) ≤ size := Nat.min_le_left _ _
      generalize min size (bufferSize : ℕ) = limit at *
      have hchunk : (r.bytes.take limit).length = limit := length_take_of_le (by omega)
      -- the string has room for the chunk, or is given it
      obtain ⟨s', hcat, hbytes, hgrows⟩ : ∃ s', strCatZN s (r.bytes.take limit) = .ok s' ∧
          s'.bytes = s.bytes ++ r.bytes.take limit ∧
          strGrows bufferSize n (size - limit) s'.bytes.length s'.extra = true := by
        unfold strCatZN strResize
        rw [hchunk, if_pos (Nat.ne_of_gt hpos)]
        by_cases hroom : limit > s.extra
        · rw [if_pos hroom] at hgrows ⊢
          by_cases hmax : s.bytes.length + limit > STRING_SIZE_MAX
          · rw [if_pos hmax] at hgrows
            cases hgrows
          · rw [if_neg hmax] at hgrows ⊢
            refine ⟨_, rfl, rfl, ?_⟩
            rw [length_append, hchunk]
            exact hgrows
        · rw [if_neg hroom] at hgrows ⊢
          refine ⟨_, rfl, rfl, ?_⟩
          rw [length_append, hchunk]
          exact hgrows
      unfold pckReadChunks pckReadBuffer
      rw [if_neg hsize, hlimit]
      rw [if_neg (fun hempty => by
          rw [hempty.2] at hchunk
          exact absurd hchunk (Nat.ne_of_lt hpos)), ok_bind]
      dsimp only
      rw [hcat, ok_bind, hchunk]
      obtain ⟨s'', r'', hrest, hbytes''⟩ := ih
        (show ({ r with bytes := r.bytes.drop limit } : PackRead).read = _ from hread) fuel
        (size - limit) s' (by omega)
        (by show _ ≤ (r.bytes.drop limit).length; rw [length_drop]; omega) hgrows
      refine ⟨s'', r'', hrest, ?_⟩
      rw [hbytes'', hbytes, append_assoc]
      rw [← take_add, Nat.add_sub_cancel' hle]

def strPack (data : List UInt8) : List UInt8 :=
  tagBytes .str 0 1 ++ (varIntIf (sizeFollows .str 1) data.length ++ (data ++ [0]))

/-- The reader of the pack after the tag. -/
def strPackRead (data : List UInt8) : PackRead :=
  { pckReadNew none (data ++ [0]) with
    tagNextId := 1
    tagNextTypeMap := some .str
    tagNextValue := 1
    tagNextSize := data.length }

theorem strPack_looked (data : List UInt8) (hsize : data.length < 2 ^ 64) :
    Looked (pckReadNew none (strPack data)) (strPackRead data) 0 1 := by
  refine ⟨?_, rfl, by decide, by decide, le_rfl⟩
  have hnext := pckReadTagNext_field (pckReadNew none (strPack data)) 0 data.length
    (show ValueFits .str 1 from ⟨by decide, fun _ => by decide⟩) (show 0 + 1 + 0 < 2 ^ 32 by decide)
    hsize (fun hfollows => absurd hfollows (by decide)) (data ++ [0])
  unfold pckReadTagLook
  rw [if_pos (show (pckReadNew none (strPack data)).tagNextId = 0 from rfl),
    show pckReadTagNext (pckReadNew none (strPack data)) = _ from hnext]
  rfl

theorem strPack_field (data : List UInt8) (hsize : data.length < 2 ^ 64) :
    pckReadNullInternal (pckReadNew none (strPack data)) 1
        = .ok ((false, 1), (strPackRead data).setIdLast 0) ∧
      pckReadTag ((strPackRead data).setIdLast 0) 1 (some .str)
        = .ok ((1, 1), { (strPackRead data).setIdLast 1 with tagNextId := 0 }) := by
  have hlooked := strPack_looked data hsize
  have htag := (hlooked.setIdLast Nat.zero_lt_one).tag rfl .str
  have hfound : pckReadTagFound (strPackRead data) (some .str)
      = .ok { (strPackRead data).setIdLast 1 with tagNextId := 0 } := rfl
  rw [hfound] at htag
  exact ⟨hlooked.present rfl, htag⟩

theorem strPack_short (data : List UInt8) (hshort : data.length ≤ STRING_SIZE_MAX) :
    ¬ LongStr (pckReadNew none (strPack data)) 1 := by
  rintro ⟨id', r₁, tag, r₂, hnull, htag, -, hlong, -⟩
  obtain ⟨hnull', htag'⟩ := strPack_field data (lt_of_le_of_lt hshort (by decide))
  obtain ⟨hid, rfl⟩ := ok_inj (hnull'.symm.trans hnull)
  obtain rfl : 1 = id' := (Prod.mk.inj hid).2
  cases htag'.symm.trans htag
  exact absurd hshort (Nat.not_le_of_lt hlong)

/-- A string that a stream returns in three parts, with a byte behind the pack. -/
theorem packStream_agrees_of_shortRun_sample :
    RunsAgree [7]
      (readRun PackRead.step (pckReadNew none (strPack [97, 98])) [.call 1 (.str none), .end])
      (readRun PackReadIo.step
        (pckReadNewIo 1 (ioReadNew true 3 [[0x78], [2, 97], [98, 0, 7]]))
        [.call 1 (.str none), .end]) := by
  refine (packStream_agrees_of_shortRun 1).2 true 3 _ _ _ _ (by decide) ⟨?_, fun _ _ _ => ?_⟩
  · exact strPack_short [97, 98] (by decide)
  · exact ⟨trivial, fun _ _ _ => trivial⟩

/-- **A string that is too long** is refused in memory, and accepted from a stream
when it grows in chunks. -/
theorem longStr_grows (block : Bool) (ioBufferSize bufferSize : ℕ+) (data : List UInt8) (n : ℕ)
    (hlong : STRING_SIZE_MAX < data.length) (hsize : data.length < 2 ^ 64)
    (hgrows : strGrows bufferSize n data.length 0 0 = true) :
    (∃ error, pckReadCallId (pckReadNew none (strPack data)) 1 (.str none) = .error error) ∧
      ∃ c, (pckReadNewIo bufferSize (ioReadNew block ioBufferSize [strPack data])).pckReadCallId 1
        (.str none) = .ok (.str (some data), c) := by
  obtain ⟨hnull, htag⟩ := strPack_field data hsize
  have hlength : data.length ≤ (data ++ [0]).length := by
    rw [length_append]
    exact Nat.le_add_right _ _
  obtain ⟨k, hk⟩ : ∃ k, data.length = k + 1 := Nat.exists_eq_succ_of_ne_zero (by omega)
  constructor
  · obtain ⟨error, herror⟩ := pckReadChunks_long
      (r := { (strPackRead data).setIdLast 1 with tagNextId := 0 }) rfl k data.length hlong hlength
    refine ⟨error, ?_⟩
    rw [← hk] at herror
    show pckValue .str (pckReadStr _ 1 none) = _
    unfold pckReadStr pckReadField
    rw [hnull, ok_bind]
    dsimp only
    rw [if_neg Bool.false_ne_true, htag]
    show pckValue .str ((pckReadChunks strCatZN data.length data.length strNew _).map _) = _
    rw [herror]
    rfl
  · have hstart : SameRead bufferSize [] (pckReadNew none (strPack data))
        (pckReadNewIo bufferSize (ioReadNew block ioBufferSize [strPack data])) := by
      refine ⟨rfl, rfl, rfl, IoReadState.ioReadNew_valid _ _ _, ?_⟩
      rw [show (pckReadNewIo bufferSize (ioReadNew block ioBufferSize [strPack data])).io.bytes = _
        from IoReadState.ioReadNew_bytes _ _ _]
      rfl
    obtain ⟨⟨null, c₁⟩, hnull', hsame₁, h₁⟩ := (hstart.nullInternal 1).1 _ hnull
    obtain rfl : _ = null := hsame₁
    obtain ⟨⟨tag, c₂⟩, htag', hsame₂, h₂⟩ := (h₁.tag 1 (some .str)).1 _ htag
    obtain rfl : _ = tag := hsame₂
    have hbytes : c₂.known.bytes = data ++ [0] := h₂.bytes.trans (append_nil _)
    obtain ⟨s', r', hchunks, hdata⟩ := pckReadChunks_grows
      (show c₂.known.read = some bufferSize from h₂.stream) n data.length data.length strNew le_rfl
      (by rw [hbytes]; exact hlength) hgrows
    have hknown := pckReadChunks_known strCatZN data.length data.length strNew h₂.valid
    rw [hchunks] at hknown
    obtain ⟨c', hstream, -, -⟩ := hknown
    have hs' : s'.bytes = data := by
      rw [hdata, hbytes, take_left]
      rfl
    have hsize' : c₂.tags.tagNextSize = data.length := h₂.tagNextSize
    refine ⟨c', ?_⟩
    show PackReadIo.value .str (PackReadIo.pckReadStr _ 1 none) = _
    unfold PackReadIo.pckReadStr PackReadIo.pckReadField
    rw [hnull', ok_bind]
    dsimp only
    rw [if_neg Bool.false_ne_true, htag', ok_bind]
    rw [hsize', hstream]
    show Except.ok (PckValue.str (some s'.bytes), c') = _
    rw [hs']

/-- The readers of such a pack do not agree. -/
theorem longStr_disagrees (bufferSize : ℕ+) (data : List UInt8) (n : ℕ)
    (hlong : STRING_SIZE_MAX < data.length) (hsize : data.length < 2 ^ 64)
    (hgrows : strGrows bufferSize n data.length 0 0 = true) :
    ¬ RunsAgree [] (readRun PackRead.step (pckReadNew none (strPack data)) [.call 1 (.str none)])
      (readRun PackReadIo.step
        (pckReadNewIo bufferSize (ioReadNew false bufferSize [strPack data]))
        [.call 1 (.str none)]) := by
  rintro ⟨⟨-, hfails⟩, -⟩
  obtain ⟨⟨error, hmemory⟩, c, hstream⟩ :=
    longStr_grows false bufferSize bufferSize data n hlong hsize hgrows
  obtain ⟨error', herror'⟩ := hfails rfl error (by
    unfold readRun
    rw [show PackRead.step _ (.call 1 (.str none)) = _ from hmemory])
  unfold readRun at herror'
  rw [show PackReadIo.step _ (.call 1 (.str none)) = _ from hstream] at herror'
  cases herror'

/-- One byte more than a string may have, from a stream with buffers of 16 MiB. -/
theorem packStream_disagrees :
    ¬ ∀ (bufferSize : ℕ+) (driver : List (List UInt8)) (bytes : List UInt8)
      (steps : List PckReadStep), driver.flatten = bytes →
        RunsAgree [] (readRun PackRead.step (pckReadNew none bytes) steps)
          (readRun PackReadIo.step
            (pckReadNewIo bufferSize (ioReadNew false bufferSize driver)) steps) := by
  obtain ⟨data, hdata⟩ : ∃ data : List UInt8, data.length = 1073741825 :=
    ⟨replicate 1073741825 97, length_replicate⟩
  intro h
  refine longStr_disagrees 16777216 data 65 ?_ ?_ ?_ (h _ _ _ _ (append_nil _))
  · rw [hdata]
    decide
  · rw [hdata]
    decide
  · rw [hdata]
    decide +kernel

end Long

end PgxBackup
