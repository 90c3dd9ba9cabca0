import Mathlib.Data.List.TakeWhile
import PgxBackup.PackCalls

/-!
# What was written to a pack is read back

Writer and reader walk through the same containers. The reader is in step
with the writer when it has counted the same fields; after a `NULL` it has
read the tag of the next field already, which is the first tag in what the
writer will emit.
-/

namespace PgxBackup

open List

/-! ## What a call emits -/

/-- A field that is stored: its type, the value in its tag and its data. -/
structure PckField where
  typeMap : PackTypeMap
  value : ℕ
  data : List UInt8

/-- The field is one that can be stored. -/
structure PckField.Fits (f : PckField) : Prop where
  value : ValueFits f.typeMap f.value
  data_lt : f.data.length < 2 ^ 64
  data_nil : sizeFollows f.typeMap f.value = false → f.data = []

/-- The bytes of a field after a number of nulls. -/
def PckField.bytes (f : PckField) (nullTotal : ℕ) : List UInt8 :=
  tagBytes f.typeMap nullTotal f.value ++
    (varIntIf (sizeFollows f.typeMap f.value) f.data.length ++ f.data)

/-- A field with data whose tag says if there is any. -/
def dataField (typeMap : PackTypeMap) (data : List UInt8) : PckField :=
  ⟨typeMap, if data.length > 0 then 1 else 0, data⟩

/-- What a call does to the pack. -/
inductive Emit
  /-- Nothing is stored. -/
  | missing
  /-- A field is stored. -/
  | field (f : PckField)
  /-- An array of strings is stored. -/
  | list (strs : List ByteStr)
  /-- A container begins. -/
  | opens (typeMap : PackTypeMap)
  /-- A container ends. -/
  | closes (typeMap : PackTypeMap)

/-- A field unless it is left out. -/
def emitUnless (leave : Bool) (f : PckField) : Emit := if leave then .missing else .field f

def PckWriteCall.emit : PckWriteCall → Emit
  | .null => .missing
  | .bool value defaultWrite defaultValue =>
    emitUnless (!defaultWrite && decide (value.toNat = defaultValue.toNat)) ⟨.bool, value.toNat, []⟩
  | .i32 value defaultWrite defaultValue =>
    emitUnless (!defaultWrite && decide (value = defaultValue)) ⟨.i32, cvtInt32ToZigZag value, []⟩
  | .i64 value defaultWrite defaultValue =>
    emitUnless (!defaultWrite && decide (value = defaultValue))
      ⟨.i64, cvtInt64ToZigZag value.toInt, []⟩
  | .mode value defaultWrite defaultValue =>
    emitUnless (!defaultWrite && decide (value = defaultValue)) ⟨.mode, value.toNat, []⟩
  | .u32 value defaultWrite defaultValue =>
    emitUnless (!defaultWrite && decide (value = defaultValue)) ⟨.u32, value.toNat, []⟩
  | .u64 value defaultWrite defaultValue =>
    emitUnless (!defaultWrite && decide (value = defaultValue)) ⟨.u64, value.toNat, []⟩
  | .strId value defaultWrite defaultValue =>
    emitUnless (!defaultWrite && decide (value = defaultValue)) ⟨.strId, value.toNat, []⟩
  | .time value defaultWrite defaultValue =>
    emitUnless (!defaultWrite && decide (value = defaultValue))
      ⟨.time, cvtInt64ToZigZag value.toInt, []⟩
  | .str none _ _ => .missing
  | .str (some value) defaultWrite defaultValue =>
    emitUnless (!defaultWrite && strEq (some value) defaultValue) (dataField .str value.bytes)
  | .bin none => .missing
  | .bin (some value) => .field (dataField .bin value.bytes)
  | .pack none => .missing
  | .pack (some value) => .field ⟨.pack, 0, value.bytes⟩
  | .strLst none => .missing
  | .strLst (some value) => .list value.strs
  | .arrayBegin => .opens .array
  | .arrayEnd => .closes .array
  | .objBegin => .opens .obj
  | .objEnd => .closes .obj

/-- The bytes that are emitted after a number of nulls. -/
def Emit.bytes (nullTotal : ℕ) : Emit → List UInt8
  | .missing => []
  | .field f => f.bytes nullTotal
  | .list strs => tagBytes .array nullTotal 0
      ++ (strs.flatMap (fun s => (dataField .str s.bytes).bytes 0) ++ [0])
  | .opens typeMap => tagBytes typeMap nullTotal 0
  | .closes _ => [0]

/-- The containers after another null. -/
def PackTagStack.null (s : PackTagStack) : PackTagStack :=
  { s with top := { s.top with nullTotal := s.top.nullTotal + 1 } }

/-- The containers after what was emitted. -/
def Emit.stack (s : PackTagStack) : Emit → PackTagStack
  | .missing => s.null
  | .field _ => s.next
  | .list _ => s.next
  | .opens typeMap => pckTagStackPush s.next typeMap
  | .closes _ => pckTagStackPop s

/-- The bytes of all calls and of the end of the pack, before `rest`. -/
def emitted (rest : List UInt8) : PackTagStack → List PckWriteCall → List UInt8
  | _, [] => 0 :: rest
  | s, call :: calls =>
    call.emit.bytes s.top.nullTotal ++ emitted rest (call.emit.stack s) calls

/-- The fields of a container so far. -/
def PackTagStackItem.fields (item : PackTagStackItem) : PackTypeMap × ℕ :=
  (item.typeMap, item.idLast + item.nullTotal)

/-- The containers as a caller counts them. -/
def PackTagStack.containers (s : PackTagStack) : OpenContainers :=
  (s.top.fields, s.below.map PackTagStackItem.fields)

/-! ## Values that fit -/

theorem cvtInt32ToZigZag_lt (value : Int32) : cvtInt32ToZigZag value < 2 ^ 32 :=
  (Base128.zigZag value.toBitVec).isLt

theorem cvtInt64ToZigZag_lt_size (value : ℤ) : cvtInt64ToZigZag value < 2 ^ 64 :=
  (Base128.zigZag (BitVec.ofInt 64 value)).isLt

theorem dataField_fits {typeMap : PackTypeMap} (htype : typeMap = .str ∨ typeMap = .bin)
    {data : List UInt8} (hdata : data.length < 2 ^ 64) : (dataField typeMap data).Fits := by
  have hvalue : (dataField typeMap data).value < 2 := by
    show (if data.length > 0 then 1 else 0) < 2
    split <;> omega
  refine ⟨⟨by omega, ?_⟩, hdata, fun hfollows => ?_⟩
  · rcases htype with rfl | rfl
    · exact fun _ => hvalue
    · exact fun _ => hvalue
  · have hzero : ¬ data.length > 0 := by
      intro hpos
      have hone : (dataField typeMap data).value = 1 := if_pos hpos
      rw [hone] at hfollows
      rcases htype with rfl | rfl
      · exact Bool.noConfusion (hfollows : true = false)
      · exact Bool.noConfusion (hfollows : true = false)
    exact eq_nil_of_length_eq_zero (Nat.eq_zero_of_not_pos hzero)

theorem numberField_fits {typeMap : PackTypeMap} {value : ℕ} (hvalue : value < 2 ^ 64)
    (hmulti : (packTypeMapData typeMap).valueMultiBit = true) :
    (⟨typeMap, value, []⟩ : PckField).Fits := by
  refine ⟨⟨hvalue, fun h => ?_⟩, by simp, fun _ => rfl⟩
  rw [hmulti] at h
  cases h

/-- **What a call stores fits.** -/
theorem PckWriteCall.emit_fits (call : PckWriteCall) {f : PckField} (h : call.emit = .field f) :
    f.Fits := by
  have hunless : ∀ {leave : Bool} {g : PckField}, emitUnless leave g = .field f → g.Fits → f.Fits := by
    intro leave g hemit hg
    unfold emitUnless at hemit
    split at hemit
    · cases hemit
    · exact Emit.field.inj hemit ▸ hg
  cases call with
  | bool value defaultWrite defaultValue =>
    refine hunless h ⟨⟨by cases value <;> simp, fun _ => ?_⟩, by simp, fun _ => rfl⟩
    exact Bool.toNat_lt value
  | i32 value defaultWrite defaultValue =>
    have := cvtInt32ToZigZag_lt value
    exact hunless h (numberField_fits (by omega) rfl)
  | i64 | time => exact hunless h (numberField_fits (cvtInt64ToZigZag_lt_size _) rfl)
  | mode value | u32 value =>
    have := value.toNat_lt
    exact hunless h (numberField_fits (by omega) rfl)
  | u64 value | strId value => exact hunless h (numberField_fits value.toNat_lt rfl)
  | str value defaultWrite defaultValue =>
    cases value with
    | none => cases h
    | some value =>
      have hlt : value.bytes.length < 2 ^ 64 := lt_of_le_of_lt value.size_le (by decide)
      exact hunless h (dataField_fits (.inl rfl) hlt)
  | bin value =>
    cases value with
    | none => cases h
    | some value => exact Emit.field.inj h ▸ dataField_fits (.inr rfl) value.size_lt
  | pack value =>
    cases value with
    | none => cases h
    | some value =>
      refine Emit.field.inj h ▸ ⟨⟨by simp, fun _ => rfl⟩, value.size_lt, fun hfollows => ?_⟩
      exact Bool.noConfusion (hfollows : true = false)
  | strLst value => cases value <;> cases h
  | null | arrayBegin | arrayEnd | objBegin | objEnd => cases h

/-! ## The writer -/

section Write

variable {w : PackWrite} {s : PackTagStack} {after : OpenContainers}

/-- There is room for the id of one more field. -/
def PackTagStack.Room (s : PackTagStack) : Prop := s.top.idLast + s.top.nullTotal + 1 < UINT_MAX - 1

theorem PackTagStack.Room.lt (h : s.Room) : s.top.idLast + s.top.nullTotal + 1 < 2 ^ 32 := by
  have h : s.top.idLast + s.top.nullTotal + 1 < 2 ^ 32 - 1 - 1 := h
  omega

theorem wrote_pckWriteNull (h : w.tagStack.Room) : Wrote w [] w.tagStack.null (pckWriteNull w) := by
  have hlt := h.lt
  refine ⟨rfl, (append_nil _).symm, ?_, fun _ => rfl⟩
  unfold pckWriteNull
  rw [u32_of_lt (by omega)]
  rfl

variable {data : List UInt8} {typeMap : PackTypeMap} {value : ℕ}

theorem pckWriteBuf_ok (w : PackWrite) (h : data.length < 2 ^ 64) :
    ∃ w', pckWriteBuf w data = .ok w' ∧ Wrote w (varInt data.length ++ data) w.tagStack w' := by
  obtain ⟨w₁, hok, hwrote⟩ := pckWriteU64Internal_ok w h
  refine ⟨pckWriteBuffer w₁ data, ?_, ?_⟩
  · unfold pckWriteBuf
    rw [hok, ok_bind]
  · have hbuffer := hwrote.trans (wrote_pckWriteBuffer w₁ data)
    rw [hwrote.tagStack] at hbuffer
    exact hbuffer

theorem PckField.bytes_tag {n : ℕ} (h : sizeFollows typeMap value = false) :
    (⟨typeMap, value, []⟩ : PckField).bytes n = tagBytes typeMap n value := by
  unfold PckField.bytes varIntIf
  rw [h, if_neg (by simp), append_nil, append_nil]

theorem PckField.bytes_data {n : ℕ} (h : sizeFollows typeMap value = true) :
    (⟨typeMap, value, data⟩ : PckField).bytes n
      = tagBytes typeMap n value ++ (varInt data.length ++ data) := by
  unfold PckField.bytes varIntIf
  rw [h, if_pos rfl]

theorem pckWriteTag_field (h : w.tagStack.Room)
    (hfits : (⟨typeMap, value, []⟩ : PckField).Fits) (hsize : sizeFollows typeMap value = false) :
    ∃ w', pckWriteTag w typeMap 0 value = .ok w' ∧
      Wrote w ((⟨typeMap, value, []⟩ : PckField).bytes w.tagStack.top.nullTotal) w.tagStack.next w' := by
  rw [PckField.bytes_tag hsize]
  exact pckWriteTag_ok w h.lt hfits.value

theorem pckWriteTag_data (data : List UInt8)
    (h : w.tagStack.Room) (hfits : (⟨typeMap, value, data⟩ : PckField).Fits)
    (hsize : sizeFollows typeMap value = true) :
    ∃ w₁ w', pckWriteTag w typeMap 0 value = .ok w₁ ∧ pckWriteBuf w₁ data = .ok w' ∧
      Wrote w ((⟨typeMap, value, data⟩ : PckField).bytes w.tagStack.top.nullTotal)
        w.tagStack.next w' := by
  obtain ⟨w₁, hok₁, hw₁⟩ := pckWriteTag_ok w h.lt hfits.value
  obtain ⟨w', hok, hw⟩ := pckWriteBuf_ok w₁ hfits.data_lt
  rw [hw₁.tagStack] at hw
  refine ⟨w₁, w', hok₁, hok, ?_⟩
  rw [PckField.bytes_data hsize]
  exact hw₁.trans hw

theorem pckWriteData_ok (h : w.tagStack.Room)
    (htype : typeMap = .str ∨ typeMap = .bin) (hdata : data.length < 2 ^ 64) :
    ∃ w', pckWriteData w typeMap 0 data = .ok w' ∧
      Wrote w ((dataField typeMap data).bytes w.tagStack.top.nullTotal) w.tagStack.next w' := by
  have hfits := dataField_fits htype hdata
  unfold pckWriteData
  unfold dataField at hfits ⊢
  by_cases hpos : data.length > 0
  · have hsize : sizeFollows typeMap 1 = true := by
      rcases htype with rfl | rfl
      · rfl
      · rfl
    rw [if_pos hpos] at hfits ⊢
    obtain ⟨w₁, w', hok₁, hok, hw⟩ := pckWriteTag_data data h hfits hsize
    refine ⟨w', ?_, hw⟩
    rw [hok₁, ok_bind, if_pos hpos]
    exact hok
  · have hsize : sizeFollows typeMap 0 = false := by
      rcases htype with rfl | rfl
      · rfl
      · rfl
    obtain rfl : data = [] := eq_nil_of_length_eq_zero (Nat.eq_zero_of_not_pos hpos)
    rw [if_neg hpos] at hfits ⊢
    obtain ⟨w', hok, hw⟩ := pckWriteTag_field h hfits hsize
    refine ⟨w', ?_, hw⟩
    rw [hok, ok_bind, if_neg hpos]

theorem pckWriteField_ok {defaultWrite defaultEqual : Bool} {f : PckField}
    {field : PackWrite → Except Error PackWrite} (h : w.tagStack.Room)
    (hfield : ∃ w', field w = .ok w' ∧
      Wrote w (f.bytes w.tagStack.top.nullTotal) w.tagStack.next w') :
    ∃ w', pckWriteField w defaultWrite defaultEqual field = .ok w' ∧
      Wrote w ((emitUnless (!defaultWrite && defaultEqual) f).bytes w.tagStack.top.nullTotal)
        ((emitUnless (!defaultWrite && defaultEqual) f).stack w.tagStack) w' := by
  unfold pckWriteField emitUnless
  cases (!defaultWrite && defaultEqual) with
  | true => exact ⟨_, rfl, wrote_pckWriteNull h⟩
  | false => exact hfield

theorem pckWriteNumber_ok {defaultWrite defaultEqual : Bool}
    (h : w.tagStack.Room) (hsize : (packTypeMapData typeMap).size = false)
    (hfits : emitUnless (!defaultWrite && defaultEqual) ⟨typeMap, value, []⟩ = .field ⟨typeMap, value, []⟩ →
      (⟨typeMap, value, []⟩ : PckField).Fits) :
    ∃ w', pckWriteField w defaultWrite defaultEqual
        (fun this => pckWriteTag this typeMap 0 value) = .ok w' ∧
      Wrote w ((emitUnless (!defaultWrite && defaultEqual) ⟨typeMap, value, []⟩).bytes
          w.tagStack.top.nullTotal)
        ((emitUnless (!defaultWrite && defaultEqual) ⟨typeMap, value, []⟩).stack w.tagStack) w' := by
  have hnone : sizeFollows typeMap value = false := by
    unfold sizeFollows
    rw [hsize, Bool.false_and]
  unfold pckWriteField
  cases hleave : (!defaultWrite && defaultEqual) with
  | true => exact ⟨_, rfl, wrote_pckWriteNull h⟩
  | false =>
    rw [hleave] at hfits
    exact pckWriteTag_field h (hfits rfl) hnone

/-- The containers after a number of fields without nulls. -/
def PackTagStack.advance (s : PackTagStack) (n : ℕ) : PackTagStack :=
  { s with top := { s.top with idLast := s.top.idLast + n } }

theorem advance_one (s : PackTagStack) (hnull : s.top.nullTotal = 0) : s.next = s.advance 1 := by
  unfold PackTagStack.next PackTagStack.advance
  rw [hnull, Nat.add_zero]
  dsimp only
  rw [hnull]

theorem advance_advance (s : PackTagStack) (n : ℕ) : (s.advance 1).advance n = s.advance (n + 1) := by
  unfold PackTagStack.advance
  rw [Nat.add_assoc, Nat.add_comm 1]

theorem pckWriteStrs_ok (strs : List ByteStr) (w : PackWrite) (hnull : w.tagStack.top.nullTotal = 0)
    (hroom : w.tagStack.top.idLast + strs.length < UINT_MAX - 1) :
    ∃ w', pckWriteStrs w strs = .ok w' ∧
      Wrote w (strs.flatMap (fun s => (dataField .str s.bytes).bytes 0))
        (w.tagStack.advance strs.length) w' := by
  induction strs generalizing w with
  | nil => exact ⟨w, rfl, rfl, (append_nil _).symm, rfl, fun _ => rfl⟩
  | cons value strs ih =>
    rw [length_cons] at hroom
    have hone : w.tagStack.Room := by
      unfold PackTagStack.Room
      omega
    obtain ⟨w₁, hok₁, hw₁⟩ := pckWriteData_ok hone (.inl rfl)
      (lt_of_le_of_lt value.size_le (by decide) : value.bytes.length < 2 ^ 64)
    have hstack : w₁.tagStack = w.tagStack.advance 1 := hw₁.tagStack.trans (advance_one _ hnull)
    obtain ⟨w', hok, hw⟩ := ih w₁ (by rw [hstack]; exact hnull) (by
      rw [hstack]
      show w.tagStack.top.idLast + 1 + strs.length < _
      omega)
    refine ⟨w', ?_, ?_⟩
    · unfold pckWriteStrs
      show ((pckWriteData w .str 0 value.bytes) >>= _) = _
      rw [hok₁, ok_bind]
      exact hok
    · have hwrote := hw₁.trans hw
      rw [hstack, hnull, advance_advance] at hwrote
      exact hwrote

theorem containers_fits (h : typeMap = .array ∨ typeMap = .obj) :
    ValueFits typeMap 0 := by
  refine ⟨by simp, fun _ => ?_⟩
  rcases h with rfl | rfl
  · exact rfl
  · exact rfl

theorem pckWriteBegin_ok (h : w.tagStack.Room) (htype : typeMap = .array ∨ typeMap = .obj) :
    ∃ w', pckWriteBegin w 0 typeMap = .ok w' ∧
      Wrote w (tagBytes typeMap w.tagStack.top.nullTotal 0)
        (pckTagStackPush w.tagStack.next typeMap) w' := by
  obtain ⟨w₁, hok, hw⟩ := pckWriteTag_ok w h.lt (containers_fits htype)
  refine ⟨{ w₁ with tagStack := pckTagStackPush w₁.tagStack typeMap }, ?_, hw.write, hw.output, ?_,
    hw.sent⟩
  · unfold pckWriteBegin
    rw [hok, ok_bind]
  · rw [← hw.tagStack]

theorem pckWriteContainerEnd_ok (w : PackWrite) {typeMap : PackTypeMap} (hbelow : w.tagStack.below ≠ [])
    (htype : w.tagStack.top.typeMap = typeMap) :
    ∃ w', pckWriteContainerEnd w typeMap = .ok w' ∧ Wrote w [0] (pckTagStackPop w.tagStack) w' := by
  obtain ⟨w₁, hok, hw⟩ := pckWriteU64Internal_ok w (n := 0) (by decide)
  refine ⟨{ w₁ with tagStack := pckTagStackPop w₁.tagStack }, ?_, hw.write, hw.output, ?_, hw.sent⟩
  · unfold pckWriteContainerEnd pckTagStackPopCheck
    rw [if_neg (fun h => h.elim hbelow (fun h => h htype)), ok_bind, hok, ok_bind]
  · rw [← hw.tagStack]

theorem pckWriteStrLst_ok (value : StringList) (h : w.tagStack.Room) :
    ∃ w', pckWriteStrLst w (some value) 0 = .ok w' ∧
      Wrote w ((Emit.list value.strs).bytes w.tagStack.top.nullTotal) w.tagStack.next w' := by
  obtain ⟨w₁, hok₁, hw₁⟩ := pckWriteBegin_ok h (.inl rfl)
  have hsize := value.size_le
  obtain ⟨w₂, hok₂, hw₂⟩ := pckWriteStrs_ok value.strs w₁ (by rw [hw₁.tagStack]; rfl) (by
    rw [hw₁.tagStack]
    show 0 + value.strs.length < 2 ^ 32 - 1 - 1
    omega)
  rw [hw₁.tagStack] at hw₂
  obtain ⟨w₃, hok₃, hw₃⟩ := pckWriteContainerEnd_ok w₂
    (by rw [hw₂.tagStack]; exact cons_ne_nil _ _)
    (show w₂.tagStack.top.typeMap = .array by rw [hw₂.tagStack]; rfl)
  rw [hw₂.tagStack] at hw₃
  refine ⟨w₃, ?_, hw₁.trans (hw₂.trans hw₃)⟩
  show (pckWriteBegin w 0 .array >>= _) = _
  rw [hok₁, ok_bind, hok₂, ok_bind]
  exact hok₃

/-- One more field is allowed when there is room for it. -/
theorem open?_field (h : PckWriteCall.open?.field s.containers = some after) :
    s.Room ∧ s.null.containers = after ∧ s.next.containers = after := by
  unfold PckWriteCall.open?.field at h
  split at h
  · rename_i hroom
    exact ⟨hroom, Option.some.inj h, Option.some.inj h⟩
  · cases h

theorem open?_endOf (h : PckWriteCall.open?.endOf s.containers typeMap = some after) :
    s.below ≠ [] ∧ s.top.typeMap = typeMap ∧ (pckTagStackPop s).containers = after := by
  obtain ⟨top, below⟩ := s
  unfold PckWriteCall.open?.endOf at h
  cases below with
  | nil => cases h
  | cons item below =>
    have h : (if top.typeMap = typeMap then
        some (item.fields, below.map PackTagStackItem.fields) else none) = some after := h
    by_cases htype : top.typeMap = typeMap
    · rw [if_pos htype] at h
      exact ⟨cons_ne_nil _ _, htype, Option.some.inj h⟩
    · rw [if_neg htype] at h
      cases h

theorem open?_begin
    (h : (do
      let containers ← PckWriteCall.open?.field s.containers
      return ((typeMap, 0), containers.1 :: containers.2)) = some after) :
    s.Room ∧ (pckTagStackPush s.next typeMap).containers = after := by
  cases hfield : PckWriteCall.open?.field s.containers with
  | none =>
    rw [hfield] at h
    cases h
  | some containers =>
    rw [hfield] at h
    obtain ⟨hroom, -, hnext⟩ := open?_field hfield
    refine ⟨hroom, ?_⟩
    rw [← Option.some.inj h, ← hnext]
    rfl

/-- **A call that is allowed succeeds**, and what it writes is known. -/
theorem pckWriteCall_ok (call : PckWriteCall) (w : PackWrite)
    (h : call.open? w.tagStack.containers = some after) :
    ∃ w', pckWriteCall w call = .ok w' ∧
      Wrote w (call.emit.bytes w.tagStack.top.nullTotal) (call.emit.stack w.tagStack) w' ∧
      (call.emit.stack w.tagStack).containers = after := by
  -- calls that count as one field
  have hone : PckWriteCall.open?.field w.tagStack.containers = some after →
      (w.tagStack.Room → ∃ w', pckWriteCall w call = .ok w' ∧
        Wrote w (call.emit.bytes w.tagStack.top.nullTotal) (call.emit.stack w.tagStack) w') →
      (call.emit.stack w.tagStack = w.tagStack.null ∨ call.emit.stack w.tagStack = w.tagStack.next) →
      ∃ w', pckWriteCall w call = .ok w' ∧
        Wrote w (call.emit.bytes w.tagStack.top.nullTotal) (call.emit.stack w.tagStack) w' ∧
        (call.emit.stack w.tagStack).containers = after := by
    intro hfield hwrite hstack
    obtain ⟨hroom, hnull, hnext⟩ := open?_field hfield
    obtain ⟨w', hok, hw⟩ := hwrite hroom
    refine ⟨w', hok, hw, ?_⟩
    rcases hstack with hstack | hstack
    · rw [hstack, hnull]
    · rw [hstack, hnext]
  have hunless : ∀ (leave : Bool) (f : PckField),
      (emitUnless leave f).stack w.tagStack = w.tagStack.null ∨
        (emitUnless leave f).stack w.tagStack = w.tagStack.next := by
    intro leave f
    cases leave with
    | true => exact .inl rfl
    | false => exact .inr rfl
  have hfits (f : PckField) (hf : call.emit = .field f) : f.Fits := call.emit_fits hf
  cases call with
  | null => exact hone h (fun hroom => ⟨_, rfl, wrote_pckWriteNull hroom⟩) (.inl rfl)
  | bool | i32 | i64 | mode | u32 | u64 | strId | time =>
    exact hone h (fun hroom => pckWriteNumber_ok hroom rfl (hfits _)) (hunless _ _)
  | str value defaultWrite defaultValue =>
    cases value with
    | none =>
      -- a NULL can only be left out
      cases defaultWrite with
      | true => exact absurd h (by simp [PckWriteCall.open?])
      | false =>
        cases defaultValue with
        | none => exact hone h (fun hroom => ⟨_, rfl, wrote_pckWriteNull hroom⟩) (.inl rfl)
        | some defaultValue => exact absurd h (by simp [PckWriteCall.open?])
    | some value =>
      have hlt : value.bytes.length < 2 ^ 64 := lt_of_le_of_lt value.size_le (by decide)
      refine hone h (fun hroom => ?_) (hunless _ _)
      show ∃ w', pckWriteField w defaultWrite (strEq (some value) defaultValue)
        (fun this => pckWriteData this .str 0 value.bytes) = .ok w' ∧ _
      exact pckWriteField_ok (f := dataField .str value.bytes) hroom
        (pckWriteData_ok hroom (.inl rfl) hlt)
  | bin value =>
    cases value with
    | none => exact hone h (fun hroom => ⟨_, rfl, wrote_pckWriteNull hroom⟩) (.inl rfl)
    | some value =>
      exact hone h (fun hroom => pckWriteData_ok hroom (.inr rfl) value.size_lt) (.inr rfl)
  | pack value =>
    cases value with
    | none => exact hone h (fun hroom => ⟨_, rfl, wrote_pckWriteNull hroom⟩) (.inl rfl)
    | some value =>
      refine hone h (fun hroom => ?_) (.inr rfl)
      obtain ⟨w₁, w', hok₁, hok, hw⟩ := pckWriteTag_data value.bytes hroom
        (hfits _ rfl) rfl
      refine ⟨w', ?_, hw⟩
      show (pckWriteTag w .pack 0 0 >>= _) = _
      rw [hok₁, ok_bind]
      exact hok
  | strLst value =>
    cases value with
    | none => exact hone h (fun hroom => ⟨_, rfl, wrote_pckWriteNull hroom⟩) (.inl rfl)
    | some value => exact hone h (fun hroom => pckWriteStrLst_ok value hroom) (.inr rfl)
  | arrayBegin =>
    obtain ⟨hroom, hafter⟩ := open?_begin h
    obtain ⟨w', hok, hw⟩ := pckWriteBegin_ok hroom (.inl rfl)
    exact ⟨w', hok, hw, hafter⟩
  | objBegin =>
    obtain ⟨hroom, hafter⟩ := open?_begin h
    obtain ⟨w', hok, hw⟩ := pckWriteBegin_ok hroom (.inr rfl)
    exact ⟨w', hok, hw, hafter⟩
  | arrayEnd | objEnd =>
    obtain ⟨hbelow, htype, hafter⟩ := open?_endOf h
    obtain ⟨w', hok, hw⟩ := pckWriteContainerEnd_ok w hbelow htype
    exact ⟨w', hok, hw, hafter⟩

theorem pckWriteEnd_ok (w : PackWrite) (hbelow : w.tagStack.below = [])
    (hsent : w.write = none → w.sent = []) :
    ∃ w', pckWriteEnd w = .ok w' ∧ pckWriteResult w' = w.output ++ [0] := by
  obtain ⟨w₁, hok, hw⟩ := pckWriteU64Internal_ok w (n := 0) (by decide)
  have houtput : w₁.sent ++ w₁.buffer = w.output ++ [0] := hw.output
  unfold pckWriteEnd
  rw [ASSERT_of_true (decide_eq_true hbelow), ok_bind, hok, ok_bind]
  unfold pckWriteResult
  cases hwrite : w₁.write with
  | none =>
    have hnone : w.write = none := hw.write.symm.trans hwrite
    refine ⟨w₁, rfl, ?_⟩
    rw [hw.sent hnone, hsent hnone, nil_append] at houtput
    rw [hwrite]
    exact houtput
  | some bufferSize =>
    exact ⟨_, rfl, houtput⟩

/-- **All calls succeed** and the pack holds what they emit. -/
theorem pckWriteCalls_ok (calls : List PckWriteCall) (w : PackWrite)
    (hsent : w.write = none → w.sent = []) (h : CallsAllowed w.tagStack.containers calls) :
    ∃ w', pckWriteCalls w calls = .ok w' ∧
      pckWriteResult w' = w.output ++ emitted [] w.tagStack calls := by
  induction calls generalizing w with
  | nil => exact pckWriteEnd_ok w (map_eq_nil_iff.mp h) hsent
  | cons call calls ih =>
    obtain ⟨after, hopen, hcalls⟩ := h
    obtain ⟨w₁, hok₁, hw₁, hafter⟩ := pckWriteCall_ok call w hopen
    rw [← hafter, ← hw₁.tagStack] at hcalls
    have hsent₁ : w₁.write = none → w₁.sent = [] := fun hnone => by
      have hnone := hw₁.write.symm.trans hnone
      rw [hw₁.sent hnone, hsent hnone]
    obtain ⟨w', hok, hresult⟩ := ih w₁ hsent₁ hcalls
    refine ⟨w', ?_, ?_⟩
    · unfold pckWriteCalls
      rw [hok₁, ok_bind]
      exact hok
    · rw [hresult, hw₁.output, hw₁.tagStack, append_assoc]
      rfl

end Write

/-! ## The reader -/

section Read

variable {s : PackTagStack} {out : List UInt8} {r next : PackRead}

def Asks (r : PackRead) (request id : ℕ) : Prop :=
  (request = 0 ∧ id = r.tagStack.top.idLast + 1 ∧ id < 2 ^ 32) ∨
    (request ≠ 0 ∧ request = id ∧ r.tagStack.top.idLast < id)

variable {id : ℕ} {P : PackRead → Prop} {f : PckField} {rest : List UInt8} {call : PckWriteCall}
  {read : PckReadCall}

theorem Asks.request {request : ℕ} (h : Asks r request id) : pckReadTagRequest r request = .ok id := by
  unfold pckReadTagRequest
  rcases h with ⟨hzero, rfl, hlt⟩ | ⟨hne, rfl, hlast⟩
  · rw [if_pos hzero, u32_of_lt hlt]
  · rw [if_neg hne, if_neg (by omega)]

section

variable (request id : ℕ) (hlooks : pckReadTagLook r = .ok next) (hasks : Asks r request id)
include hlooks hasks

/-- One turn is enough when the field is the next one or missing. -/
theorem pckReadTag_eq {typeMap : Option PackTypeMap} {result : PackRead}
    (hmissing : id < next.tagNextId → result = next)
    (hfound : id = next.tagNextId → pckReadTagFound next typeMap = .ok result)
    (hle : id ≤ next.tagNextId) :
    pckReadTag r request typeMap = .ok ((id, result.tagNextValue), result) := by
  have hloop : pckReadTagLoop typeMap id (r.bytes.length + 2) r = .ok result := by
    unfold pckReadTagLoop
    rw [hlooks, ok_bind]
    by_cases hlt : id < next.tagNextId
    · rw [if_pos hlt, hmissing hlt]
    · have heq : id = next.tagNextId := by omega
      rw [if_neg hlt, if_pos heq]
      exact hfound heq
  unfold pckReadTag
  rw [hasks.request, ok_bind, hloop, ok_bind]

theorem pckReadTag_peek (hle : id ≤ next.tagNextId) :
    pckReadTag r request none = .ok ((id, next.tagNextValue), next) :=
  pckReadTag_eq request id hlooks hasks (fun _ => rfl) (fun _ => rfl) hle

theorem pckReadTag_match {typeMap : PackTypeMap} (hid : id = next.tagNextId)
    (htype : next.tagNextTypeMap = some typeMap) :
    pckReadTag r request (some typeMap)
      = .ok ((id, next.tagNextValue), { next.setIdLast id with tagNextId := 0 }) := by
  have hfound : pckReadTagFound next (some typeMap)
      = .ok { next.setIdLast id with tagNextId := 0 } := by
    unfold pckReadTagFound
    dsimp only
    rw [if_neg (by rw [htype]; simp), hid]
  exact pckReadTag_eq request id hlooks hasks (fun hlt => absurd hid (Nat.ne_of_lt hlt))
    (fun _ => hfound) (Nat.le_of_eq hid)

end

/-- The containers without the nulls. -/
def PackTagStack.clear (s : PackTagStack) : PackTagStack :=
  { s with top := { s.top with nullTotal := 0 } }

/-- A reader that has not read the next tag. -/
structure Before (s : PackTagStack) (out : List UInt8) (raw : PackRead) : Prop where
  tagNextId : raw.tagNextId = 0
  tagStack : raw.tagStack = s.clear
  bytes : raw.bytes = out

/-- **Reader and writer are in step.** The reader may have read the next tag,
and has read it after a null. -/
def InStep (s : PackTagStack) (out : List UInt8) (r : PackRead) : Prop :=
  ∃ raw, Before s out raw ∧
    (s.top.nullTotal = 0 ∧ r = raw ∨
      ∃ found raw', pckReadTagNext raw = .ok (found, raw') ∧
        r = raw'.setIdLast (s.top.idLast + s.top.nullTotal))

/-- The next tag of what will be emitted. -/
def NextTag (s : PackTagStack) (out : List UInt8) (P : PackRead → Prop) : Prop :=
  ∀ raw, Before s out raw → ∃ found raw', pckReadTagNext raw = .ok (found, raw') ∧
    raw'.tagStack = raw.tagStack ∧ P raw'

/-- **A reader in step can look at the next tag**, and has counted the fields
up to it. -/
theorem InStep.looks (h : InStep s out r) (hnext : NextTag s out P)
    (hpos : ∀ raw', P raw' → raw'.tagNextId ≠ 0) :
    ∃ raw found raw', Before s out raw ∧ pckReadTagNext raw = .ok (found, raw') ∧
      raw'.tagStack = s.clear ∧ P raw' ∧
      pckReadTagLook r = .ok (raw'.setIdLast (s.top.idLast + s.top.nullTotal)) ∧
      r.tagStack.top.idLast = s.top.idLast + s.top.nullTotal := by
  obtain ⟨raw, hbefore, hread⟩ := h
  obtain ⟨found, raw', htag, hstack, hP⟩ := hnext raw hbefore
  rw [hbefore.tagStack] at hstack
  refine ⟨raw, found, raw', hbefore, htag, hstack, hP, ?_⟩
  rcases hread with ⟨hnull, rfl⟩ | ⟨found', raw'', htag', rfl⟩
  · have hset : raw'.setIdLast (s.top.idLast + s.top.nullTotal) = raw' := by
      unfold PackRead.setIdLast
      rw [hstack, hnull, Nat.add_zero]
      show ({ raw' with tagStack := s.clear } : PackRead) = raw'
      rw [← hstack]
    rw [hset]
    unfold pckReadTagLook
    rw [if_pos hbefore.tagNextId, htag, hbefore.tagStack, hnull]
    exact ⟨rfl, rfl⟩
  · rw [htag] at htag'
    cases htag'
    exact ⟨if_neg (hpos _ hP), rfl⟩

theorem inStep_of_before {s : PackTagStack} (hid : r.tagNextId = 0) (hstack : r.tagStack = s)
    (hnull : s.top.nullTotal = 0) (hbytes : r.bytes = out) : InStep s out r := by
  have hclear : s.clear = s := by
    unfold PackTagStack.clear
    rw [← hnull]
  exact ⟨r, ⟨hid, hstack.trans hclear.symm, hbytes⟩, .inl ⟨hnull, rfl⟩⟩

/-! ### The next tag -/

/-- What the reader knows after the tag of a field. -/
structure AtField (s : PackTagStack) (f : PckField) (rest : List UInt8) (r : PackRead) : Prop where
  tagNextId : r.tagNextId = s.top.idLast + s.top.nullTotal + 1
  tagNextTypeMap : r.tagNextTypeMap = some f.typeMap
  tagNextValue : r.tagNextValue = f.value
  tagNextSize : r.tagNextSize = f.data.length
  bytes : r.bytes = f.data ++ rest

theorem nextTag_field (hfits : f.Fits) (hroom : s.Room) (rest : List UInt8) :
    NextTag s (f.bytes s.top.nullTotal ++ rest) (AtField s f rest) := by
  intro raw hbefore
  have hlast : raw.tagStack.top.idLast = s.top.idLast := by
    rw [hbefore.tagStack]
    rfl
  have hlt := hroom.lt
  have hread := pckReadTagNext_field raw s.top.nullTotal f.data.length hfits.value (by omega)
    hfits.data_lt (fun h => by rw [hfits.data_nil h]; rfl) (f.data ++ rest)
  have hbytes : raw.bytes = tagBytes f.typeMap s.top.nullTotal f.value ++
      (varIntIf (sizeFollows f.typeMap f.value) f.data.length ++ (f.data ++ rest)) := by
    rw [hbefore.bytes]
    unfold PckField.bytes
    simp only [append_assoc]
  rw [← hbytes] at hread
  refine ⟨true, _, hread, rfl, ?_, rfl, rfl, rfl, rfl⟩
  show raw.tagStack.top.idLast + 1 + s.top.nullTotal = _
  omega

variable {typeMap : PackTypeMap}

theorem nextTag_begin (htype : typeMap = .array ∨ typeMap = .obj)
    (hroom : s.Room) (rest : List UInt8) :
    NextTag s (tagBytes typeMap s.top.nullTotal 0 ++ rest) (AtField s ⟨typeMap, 0, []⟩ rest) := by
  have hsize : sizeFollows typeMap 0 = false := by
    rcases htype with rfl | rfl
    · rfl
    · rfl
  rw [← PckField.bytes_tag hsize]
  exact nextTag_field ⟨containers_fits htype, by simp, fun _ => rfl⟩ hroom rest

theorem nextTag_end (rest : List UInt8) :
    NextTag s (0 :: rest) (fun r => r.tagNextId = UINT_MAX ∧ r.bytes = rest) := by
  intro raw hbefore
  have hread := pckReadTagNext_end raw rest
  rw [← hbefore.bytes] at hread
  exact ⟨false, _, hread, rfl, rfl, rfl⟩

theorem NextTag.imp {Q : PackRead → Prop} (h : NextTag s out P) (hPQ : ∀ r, P r → Q r) :
    NextTag s out Q := by
  intro raw hbefore
  obtain ⟨found, raw', hread, hstack, hP⟩ := h raw hbefore
  exact ⟨found, raw', hread, hstack, hPQ _ hP⟩

theorem NextTag.of_null (h : NextTag s.null out P) : NextTag s out P :=
  fun raw hbefore => h raw ⟨hbefore.tagNextId, hbefore.tagStack, hbefore.bytes⟩

/-! ### One call -/

/-- **A field that is missing**: the next tag belongs to a later one. -/
theorem InStep.null (h : InStep s out r) (hroom : s.Room)
    (hnext : NextTag s out (fun r => s.top.idLast + s.top.nullTotal + 1 < r.tagNextId)) :
    ∃ r', pckReadNullInternal r 0 = .ok ((true, s.top.idLast + s.top.nullTotal + 1), r') ∧
      InStep s.null out r' := by
  obtain ⟨raw, found, raw', hbefore, htag, hstack, hid, hlooks, hlast⟩ :=
    h.looks hnext (fun raw' h => by omega)
  have hpeek := pckReadTag_peek 0 (s.top.idLast + s.top.nullTotal + 1) hlooks
    (.inl ⟨rfl, by rw [hlast], hroom.lt⟩) (Nat.le_of_lt hid)
  refine ⟨(raw'.setIdLast (s.top.idLast + s.top.nullTotal)).setIdLast
    (s.top.idLast + s.top.nullTotal + 1), ?_, raw, ⟨hbefore.tagNextId, hbefore.tagStack,
    hbefore.bytes⟩, .inr ⟨found, raw', htag, rfl⟩⟩
  unfold pckReadNullInternal
  rw [hpeek, ok_bind]
  exact if_pos hid

/-- A field that is there, before its tag is taken. -/
theorem InStep.present (h : InStep s out r) (hroom : s.Room)
    (hnext : NextTag s out (AtField s f rest)) :
    ∃ r₁ r₂, pckReadNullInternal r 0 = .ok ((false, s.top.idLast + s.top.nullTotal + 1), r₁) ∧
      InStep s out r₁ ∧
      pckReadTag r₁ (s.top.idLast + s.top.nullTotal + 1) (some f.typeMap)
        = .ok ((s.top.idLast + s.top.nullTotal + 1, f.value), r₂) ∧
      pckReadTag r 0 (some f.typeMap)
        = .ok ((s.top.idLast + s.top.nullTotal + 1, f.value), r₂) ∧
      r₂.tagNextId = 0 ∧ r₂.tagStack = s.next ∧ r₂.tagNextSize = f.data.length ∧
      r₂.bytes = f.data ++ rest := by
  obtain ⟨raw, found, raw', hbefore, htag, hstack, hat, hlooks, hlast⟩ :=
    h.looks hnext (fun raw' h => by rw [h.tagNextId]; omega)
  have hasks : Asks r 0 (s.top.idLast + s.top.nullTotal + 1) :=
    .inl ⟨rfl, by rw [hlast], hroom.lt⟩
  have hpeek := pckReadTag_peek _ _ hlooks hasks (Nat.le_of_eq hat.tagNextId.symm)
  have hmatch := pckReadTag_match _ _ hlooks hasks hat.tagNextId.symm hat.tagNextTypeMap
  have hlooks₁ : pckReadTagLook (raw'.setIdLast (s.top.idLast + s.top.nullTotal))
      = .ok (raw'.setIdLast (s.top.idLast + s.top.nullTotal)) :=
    if_neg (by show raw'.tagNextId ≠ 0; rw [hat.tagNextId]; omega)
  have hmatch₁ := pckReadTag_match (s.top.idLast + s.top.nullTotal + 1) _ hlooks₁
    (.inr ⟨by omega, rfl, Nat.lt_succ_self _⟩) hat.tagNextId.symm hat.tagNextTypeMap
  have hvalue : (raw'.setIdLast (s.top.idLast + s.top.nullTotal)).tagNextValue = f.value :=
    hat.tagNextValue
  rw [hvalue] at hmatch hmatch₁
  refine ⟨_, _, ?_, ⟨raw, hbefore, .inr ⟨found, raw', htag, rfl⟩⟩, hmatch₁, hmatch, rfl, ?_,
    hat.tagNextSize, hat.bytes⟩
  · unfold pckReadNullInternal
    rw [hpeek, ok_bind]
    refine if_neg ?_
    show ¬ _ < raw'.tagNextId
    rw [hat.tagNextId]
    exact lt_irrefl _
  · show ({ raw'.tagStack with top := _ } : PackTagStack) = _
    unfold PackRead.setIdLast
    rw [hstack]
    rfl

/-- Containers that the calls so far may have opened. -/
structure PackTagStack.Valid (s : PackTagStack) : Prop where
  top : s.top.idLast + s.top.nullTotal < UINT_MAX - 1
  below : ∀ item ∈ s.below, item.nullTotal = 0 ∧ item.idLast < UINT_MAX - 1

theorem InStep.atEnd (h : InStep s (0 :: rest) r) (hvalid : s.Valid) :
    ∃ r', pckReadTag r (UINT_MAX - 1) none = .ok ((UINT_MAX - 1, r'.tagNextValue), r') ∧
      r'.bytes = rest ∧ r'.tagStack.below = s.below := by
  obtain ⟨raw, found, raw', hbefore, htag, hstack, ⟨hid, hbytes⟩, hlooks, hlast⟩ :=
    h.looks (nextTag_end rest) (fun raw' h => by rw [h.1]; decide)
  have htop := hvalid.top
  refine ⟨_, pckReadTag_peek _ _ hlooks (.inr ⟨by decide, rfl, by rw [hlast]; exact htop⟩) ?_,
    hbytes, ?_⟩
  · show UINT_MAX - 1 ≤ raw'.tagNextId
    rw [hid]
    exact Nat.sub_le _ _
  · show raw'.tagStack.below = _
    rw [hstack]
    rfl

theorem InStep.below (h : InStep s out r) (hnext : NextTag s out P) :
    r.tagStack.below = s.below ∧ r.tagStack.top.typeMap = s.top.typeMap := by
  obtain ⟨raw, hbefore, ⟨-, rfl⟩ | ⟨found, raw', htag, rfl⟩⟩ := h
  · rw [hbefore.tagStack]
    exact ⟨rfl, rfl⟩
  · obtain ⟨found', raw'', htag', hstack, -⟩ := hnext raw hbefore
    rw [htag] at htag'
    cases htag'
    unfold PackRead.setIdLast
    rw [hstack, hbefore.tagStack]
    exact ⟨rfl, rfl⟩

/-- **A container ends** for the reader where it ended for the writer. -/
theorem InStep.close (h : InStep s (0 :: rest) r)
    (hvalid : s.Valid) (hbelow : s.below ≠ []) (htype : s.top.typeMap = typeMap) :
    ∃ r', pckReadContainerEnd r typeMap = .ok r' ∧ InStep (pckTagStackPop s) rest r' := by
  obtain ⟨hrbelow, hrtype⟩ := h.below (nextTag_end rest)
  obtain ⟨r', hread, hbytes, hbelow'⟩ := h.atEnd hvalid
  have hcheck : pckTagStackPopCheck r.tagStack typeMap = .ok () := by
    unfold pckTagStackPopCheck
    rw [hrbelow, hrtype]
    exact if_neg (fun h => h.elim hbelow (fun h => h htype))
  refine ⟨{ r' with tagStack := pckTagStackPop r'.tagStack, tagNextId := 0 }, ?_, ?_⟩
  · unfold pckReadContainerEnd
    rw [hcheck, ok_bind, hread, ok_bind]
  · obtain ⟨item, below, hitem⟩ := exists_cons_of_ne_nil hbelow
    have hpop : ∀ t : PackTagStack, t.below = s.below → pckTagStackPop t = ⟨item, below⟩ := by
      intro t ht
      unfold pckTagStackPop
      rw [ht, hitem]
    rw [hpop s rfl]
    refine inStep_of_before rfl (hpop _ hbelow') ?_ hbytes
    exact (hvalid.below item (by rw [hitem]; exact mem_cons_self)).1

/-- **A container begins** for the reader where it began for the writer. -/
theorem InStep.begin
    (h : InStep s (tagBytes typeMap s.top.nullTotal 0 ++ rest) r) (hroom : s.Room)
    (htype : typeMap = .array ∨ typeMap = .obj) :
    ∃ r', pckReadBegin r 0 typeMap = .ok r' ∧
      InStep (pckTagStackPush s.next typeMap) rest r' := by
  obtain ⟨-, r₂, -, -, -, htag, hid, hstack, -, hbytes⟩ :=
    h.present hroom (nextTag_begin htype hroom rest)
  refine ⟨{ r₂ with tagStack := pckTagStackPush r₂.tagStack typeMap }, ?_, ?_⟩
  · unfold pckReadBegin
    rw [htag, ok_bind]
  · exact inStep_of_before hid (by rw [hstack]) rfl hbytes

section

variable {data : List UInt8} (hsize : r.tagNextSize = data.length) (hbytes : r.bytes = data ++ rest)
include hsize hbytes

theorem pckReadBuf_ok : pckReadBuf r = .ok (data, { r with bytes := rest }) := by
  obtain ⟨result, hread, hresult⟩ := pckReadChunks_ok (fun read result => result = read) data.length
    (fun read result chunk hread _ => ⟨result ++ chunk, rfl, by rw [hread]⟩) data.length r rest data
    [] [] rfl le_rfl le_rfl
  rw [← hbytes, ← hsize, hresult] at hread
  exact hread

theorem pckReadStrData_ok (hmax : data.length ≤ STRING_SIZE_MAX) :
    ∃ result, pckReadChunks strCatZN r.tagNextSize r.tagNextSize strNew r
      = .ok (result, { r with bytes := rest }) ∧ result.bytes = data := by
  obtain ⟨result, hread, hresult⟩ := pckReadChunks_ok (fun read s => s.bytes = read)
    STRING_SIZE_MAX (fun read s chunk hread hmax => by
      rw [← hread] at hmax ⊢
      exact strCatZN_ok s chunk hmax) data.length r rest data [] strNew rfl le_rfl hmax
  rw [← hbytes, ← hsize] at hread
  exact ⟨result, hread, hresult⟩

end

/-- Every call for a field returns its default when the field is missing. -/
theorem pckReadCall_missing {call : PckReadCall} (hfield : call.isField = true)
    {r' : PackRead} (h : pckReadNullInternal r 0 = .ok ((true, id), r')) :
    pckReadCall r call = .ok (call.missing, r') := by
  have hread : ∀ {α : Type} (typeMap : PackTypeMap)
      (value : PackRead → ℕ → Except Error (α × PackRead)) (defaultValue : α),
      pckReadField typeMap value r 0 defaultValue = .ok (defaultValue, r') := by
    intro α typeMap value defaultValue
    unfold pckReadField
    rw [h, ok_bind]
    exact if_pos rfl
  cases call with
  | null =>
    show pckValue .null (pckReadNull r 0) = _
    unfold pckReadNull
    rw [h]
    rfl
  | bool | i32 | i64 | mode | u32 | u64 | strId | time | str | bin | pack =>
    exact congrArg (pckValue _) (hread _ _ _)
  | strLst =>
    show pckValue .strLst (pckReadStrLst r 0) = _
    unfold pckReadStrLst
    rw [h, ok_bind]
    rfl
  | arrayBegin | arrayEnd | objBegin | objEnd => cases hfield

theorem strZ_of_zeroFree {bytes : List UInt8} (h : 0 ∉ bytes) : strZ bytes = bytes := by
  unfold strZ
  rw [takeWhile_eq_self_iff]
  intro byte hbyte
  simp only [decide_eq_true_eq]
  exact fun hzero => h (hzero ▸ hbyte)

theorem bytes_eq_of_strEq {value : ByteStr} {other : Option ByteStr}
    (h : strEq (some value) other = true) : some value.bytes = other.map ByteStr.bytes := by
  cases other with
  | none => cases h
  | some other =>
    have h : (decide (value.bytes.length = other.bytes.length) &&
      decide (strZ value.bytes = strZ other.bytes)) = true := h
    rw [strZ_of_zeroFree value.zeroFree, strZ_of_zeroFree other.zeroFree, Bool.and_eq_true,
      decide_eq_true_eq, decide_eq_true_eq] at h
    rw [h.2]
    rfl

theorem emitUnless_missing {leave : Bool} (h : emitUnless leave f = .missing) :
    leave = true := by
  unfold emitUnless at h
  split at h
  · assumption
  · cases h

variable {after : OpenContainers}

/-- **A value that is left out is the default.** -/
theorem writtenValue_missing
    (hcorresponds : Corresponds call read) {containers : OpenContainers}
    (hopen : call.open? containers = some after) (hmissing : call.emit = .missing) :
    read.isField = true ∧ writtenValue call read = read.missing := by
  have hequal : ∀ {defaultWrite : Bool} {p : Prop} [Decidable p] {f : PckField},
      emitUnless (!defaultWrite && decide p) f = .missing → p := by
    intro defaultWrite p _ f h
    have h := emitUnless_missing h
    rw [Bool.and_eq_true, decide_eq_true_eq] at h
    exact h.2
  cases call with
  | null => exact ⟨hcorresponds, rfl⟩
  | bool value defaultWrite defaultValue =>
    cases hcorresponds
    have hvalue : value.toNat = defaultValue.toNat := hequal hmissing
    refine ⟨rfl, ?_⟩
    show PckValue.bool value = .bool (decide (defaultValue ≠ 0))
    congr 1
    have hzero : defaultValue ≠ 0 ↔ value.toNat ≠ 0 := by
      rw [hvalue, Ne, Ne, ← UInt32.toNat_inj]
      rfl
    rw [decide_eq_decide.mpr hzero]
    cases value <;> rfl
  | i32 | i64 | mode | u32 | u64 | strId | time =>
    cases hcorresponds
    exact ⟨rfl, congrArg _ (hequal hmissing)⟩
  | str value defaultWrite defaultValue =>
    cases hcorresponds
    refine ⟨rfl, congrArg PckValue.str ?_⟩
    cases value with
    | none =>
      cases defaultWrite with
      | true => exact absurd hopen (by simp [PckWriteCall.open?])
      | false =>
        cases defaultValue with
        | none => rfl
        | some defaultValue => exact absurd hopen (by simp [PckWriteCall.open?])
    | some value =>
      have h := emitUnless_missing hmissing
      rw [Bool.and_eq_true] at h
      exact bytes_eq_of_strEq h.2
  | bin value | pack value | strLst value =>
    cases hcorresponds
    cases value with
    | none => exact ⟨rfl, rfl⟩
    | some value => cases hmissing
  | arrayBegin | arrayEnd | objBegin | objEnd =>
    cases hmissing

theorem cvtInt32FromZigZag_to (value : Int32) :
    cvtInt32FromZigZag (u32 (cvtInt32ToZigZag value)) = value := by
  rw [u32_of_lt (cvtInt32ToZigZag_lt value)]
  unfold cvtInt32FromZigZag cvtInt32ToZigZag
  rw [BitVec.ofNat_toNat, BitVec.setWidth_eq, Base128.unZigZag_zigZag]
  rfl

theorem ofInt_cvtInt64FromZigZag_to (value : Int64) :
    Int64.ofInt (cvtInt64FromZigZag (cvtInt64ToZigZag value.toInt)) = value := by
  rw [cvtInt64FromZigZag_to value.le_toInt value.toInt_lt]
  exact Int64.ofInt_toInt value

/-- What is left after a field was read. -/
def Rest (r₂ : PackRead) (rest : List UInt8) (r' : PackRead) : Prop :=
  r'.tagNextId = r₂.tagNextId ∧ r'.tagStack = r₂.tagStack ∧ r'.bytes = rest

theorem pckReadStr_found {value : ByteStr} (defaultValue : Option (List UInt8))
    {r₁ r₂ : PackRead} (hnull : pckReadNullInternal r 0 = .ok ((false, id), r₁))
    (htag : pckReadTag r₁ id (some .str) = .ok ((id, (dataField .str value.bytes).value), r₂))
    (hsize : r₂.tagNextSize = value.bytes.length) (hbytes : r₂.bytes = value.bytes ++ rest) :
    ∃ r', pckReadStr r 0 defaultValue = .ok (some value.bytes, r') ∧ Rest r₂ rest r' := by
  unfold pckReadStr pckReadField
  rw [hnull, ok_bind]
  show ∃ r', (pckReadTag r₁ id (some .str) >>= _) = _ ∧ _
  rw [htag, ok_bind]
  by_cases hpos : value.bytes.length > 0
  · have hone : (dataField .str value.bytes).value = 1 := if_pos hpos
    obtain ⟨result, hread, hresult⟩ := pckReadStrData_ok hsize hbytes value.size_le
    rw [hone]
    show ∃ r', Except.map _ (pckReadChunks strCatZN r₂.tagNextSize r₂.tagNextSize strNew r₂) = _ ∧ _
    rw [hread, ← hresult]
    exact ⟨_, rfl, rfl, rfl, rfl⟩
  · have hzero : (dataField .str value.bytes).value = 0 := if_neg hpos
    have hnil : value.bytes = [] := eq_nil_of_length_eq_zero (Nat.eq_zero_of_not_pos hpos)
    rw [hzero]
    rw [hnil] at hbytes ⊢
    exact ⟨r₂, rfl, rfl, rfl, hbytes⟩

/-- **A field that was stored is read back.** -/
theorem pckReadCall_found
    (hcorresponds : Corresponds call read) (hfield : call.emit = .field f)
    {r₁ r₂ : PackRead}
    (hnull : pckReadNullInternal r 0 = .ok ((false, id), r₁))
    (htag : pckReadTag r₁ id (some f.typeMap) = .ok ((id, f.value), r₂))
    (hsize : r₂.tagNextSize = f.data.length) (hbytes : r₂.bytes = f.data ++ rest) :
    ∃ r', pckReadCall r read = .ok (writtenValue call read, r') ∧ Rest r₂ rest r' := by
  have hemit : ∀ {leave : Bool} {g : PckField}, emitUnless leave g = .field f → f = g := by
    intro leave g h
    unfold emitUnless at h
    split at h
    · cases h
    · exact (Emit.field.inj h).symm
  -- a number is in the tag
  have hnumber : ∀ {α : Type} (value : PackRead → ℕ → Except Error (α × PackRead))
      (defaultValue result : α), value r₂ f.value = .ok (result, r₂) →
      pckReadField f.typeMap value r 0 defaultValue = .ok (result, r₂) := by
    intro α value defaultValue result hvalue
    unfold pckReadField
    rw [hnull, ok_bind]
    show (pckReadTag r₁ id (some f.typeMap) >>= _) = _
    rw [htag, ok_bind]
    exact hvalue
  have hrest : f.data = [] → Rest r₂ rest r₂ := by
    intro hnil
    rw [hnil] at hbytes
    exact ⟨rfl, rfl, hbytes⟩
  cases call with
  | null | arrayBegin | arrayEnd | objBegin | objEnd => cases hfield
  | bool value defaultWrite defaultValue =>
    cases hcorresponds
    obtain rfl := hemit hfield
    refine ⟨r₂, congrArg (pckValue PckValue.bool) (hnumber _ _ value ?_), hrest rfl⟩
    cases value <;> rfl
  | i32 value defaultWrite defaultValue =>
    cases hcorresponds
    obtain rfl := hemit hfield
    refine ⟨r₂, congrArg (pckValue PckValue.i32) (hnumber _ _ value ?_), hrest rfl⟩
    rw [cvtInt32FromZigZag_to]
  | i64 value | time value =>
    cases hcorresponds
    obtain rfl := hemit hfield
    refine ⟨r₂, congrArg (pckValue _) (hnumber _ _ value ?_), hrest rfl⟩
    rw [ofInt_cvtInt64FromZigZag_to]
  | mode value | u32 value =>
    cases hcorresponds
    obtain rfl := hemit hfield
    refine ⟨r₂, congrArg (pckValue _) (hnumber _ _ value ?_), hrest rfl⟩
    rw [UInt32.ofNat_toNat]
  | u64 value | strId value =>
    cases hcorresponds
    obtain rfl := hemit hfield
    refine ⟨r₂, congrArg (pckValue _) (hnumber _ _ value ?_), hrest rfl⟩
    rw [UInt64.ofNat_toNat]
  | str value defaultWrite defaultValue =>
    cases hcorresponds
    cases value with
    | none => cases hfield
    | some value =>
      obtain rfl := hemit hfield
      obtain ⟨r', hread, hr'⟩ := pckReadStr_found _ hnull htag hsize hbytes
      exact ⟨r', congrArg (pckValue PckValue.str) hread, hr'⟩
  | bin value =>
    cases hcorresponds
    cases value with
    | none => cases hfield
    | some value =>
      obtain rfl : f = dataField .bin value.bytes := (Emit.field.inj hfield).symm
      have hdata : ∃ r', pckReadBin r 0 = .ok (some value.bytes, r') ∧ Rest r₂ rest r' := by
        unfold pckReadBin pckReadField
        rw [hnull, ok_bind]
        show ∃ r', (pckReadTag r₁ id (some .bin) >>= _) = _ ∧ _
        rw [show pckReadTag r₁ id (some .bin) = _ from htag, ok_bind]
        by_cases hpos : value.bytes.length > 0
        · have hone : (dataField .bin value.bytes).value = 1 := if_pos hpos
          rw [hone]
          show ∃ r', Except.map _ (pckReadBuf r₂) = _ ∧ _
          rw [pckReadBuf_ok hsize hbytes]
          exact ⟨_, rfl, rfl, rfl, rfl⟩
        · have hzero : (dataField .bin value.bytes).value = 0 := if_neg hpos
          have hnil : value.bytes = [] :=
            eq_nil_of_length_eq_zero (Nat.eq_zero_of_not_pos hpos)
          rw [hzero, hnil]
          exact ⟨r₂, rfl, hrest hnil⟩
      obtain ⟨r', hread, hr'⟩ := hdata
      exact ⟨r', congrArg (pckValue PckValue.bin) hread, hr'⟩
  | pack value =>
    cases hcorresponds
    cases value with
    | none => cases hfield
    | some value =>
      obtain rfl : f = ⟨.pack, 0, value.bytes⟩ := (Emit.field.inj hfield).symm
      have hread : pckReadPack r 0 = .ok (some value.bytes, { r₂ with bytes := rest }) := by
        unfold pckReadPack pckReadField
        rw [hnull, ok_bind]
        show (pckReadTag r₁ id (some .pack) >>= _) = _
        rw [show pckReadTag r₁ id (some .pack) = _ from htag, ok_bind]
        dsimp only
        rw [pckReadBuf_ok hsize hbytes]
        rfl
      exact ⟨_, congrArg (pckValue PckValue.pack) hread, rfl, rfl, rfl⟩
  | strLst value => cases value <;> cases hfield

def strsBytes (strs : List ByteStr) : List UInt8 :=
  strs.flatMap (fun s => (dataField .str s.bytes).bytes 0)

theorem length_le_strsBytes (strs : List ByteStr) : strs.length ≤ (strsBytes strs).length := by
  induction strs with
  | nil => exact le_rfl
  | cons value strs ih =>
    have hpos : 0 < ((dataField .str value.bytes).bytes 0).length := by
      unfold PckField.bytes tagBytes
      simp
    unfold strsBytes at ih ⊢
    rw [flatMap_cons, length_append, length_cons]
    omega

/-- **The strings of a list** are read up to the end of the array, where the
reader finds a missing field. -/
theorem pckReadStrLstLoop_ok (strs : List ByteStr) (fuel : ℕ) (s : PackTagStack) (r : PackRead)
    (rest : List UInt8) (hfuel : strs.length < fuel) (hnull : s.top.nullTotal = 0)
    (hroom : s.top.idLast + strs.length + 1 < UINT_MAX - 1)
    (h : InStep s (strsBytes strs ++ (0 :: rest)) r) :
    ∃ r', pckReadStrLstLoop fuel r = .ok (strs.map (fun s => some s.bytes), r') ∧
      InStep (s.advance strs.length).null (0 :: rest) r' := by
  induction strs generalizing fuel s r with
  | nil =>
    obtain ⟨fuel, rfl⟩ := Nat.exists_eq_succ_of_ne_zero (Nat.ne_of_gt hfuel)
    have hone : s.Room := by
      unfold PackTagStack.Room
      rw [hnull]
      exact hroom
    have hlt := hone.lt
    obtain ⟨r', hread, hstep⟩ := InStep.null h hone ((nextTag_end rest).imp (fun r h => by
      rw [h.1]
      unfold PackTagStack.Room at hone
      omega))
    refine ⟨r', ?_, hstep⟩
    unfold pckReadStrLstLoop pckReadNull
    rw [hread, ok_bind, ok_bind]
    rfl
  | cons value strs ih =>
    obtain ⟨fuel, rfl⟩ := Nat.exists_eq_succ_of_ne_zero
      (Nat.ne_of_gt (lt_of_le_of_lt (Nat.zero_le _) hfuel))
    rw [length_cons] at hfuel hroom
    have hone : s.Room := by
      unfold PackTagStack.Room
      rw [hnull]
      omega
    have hfits : (dataField .str value.bytes).Fits :=
      dataField_fits (.inl rfl) (lt_of_le_of_lt value.size_le (by decide))
    have hnext := nextTag_field hfits hone (strsBytes strs ++ (0 :: rest))
    rw [hnull] at hnext
    have hbytes : strsBytes (value :: strs) ++ (0 :: rest)
        = (dataField .str value.bytes).bytes 0 ++ (strsBytes strs ++ (0 :: rest)) := by
      unfold strsBytes
      rw [flatMap_cons, append_assoc]
    rw [hbytes] at h
    obtain ⟨r₁, -, hprobe, hstep₁, -⟩ := h.present hone hnext
    obtain ⟨r₂, r₃, hfalse, -, htag, -, hid, hstack, hsize, hdata⟩ := hstep₁.present hone hnext
    obtain ⟨r₄, hread, hid₄, hstack₄, hbytes₄⟩ :=
      pckReadStr_found none hfalse htag hsize hdata
    have hstep₄ : InStep (s.advance 1) (strsBytes strs ++ (0 :: rest)) r₄ := by
      refine inStep_of_before (hid₄.trans hid) ?_ hnull hbytes₄
      rw [hstack₄, hstack, advance_one s hnull]
    obtain ⟨r', hloop, hstep'⟩ := ih fuel (s.advance 1) r₄ (by omega) hnull (by
      show s.top.idLast + 1 + strs.length + 1 < _
      omega) hstep₄
    rw [advance_advance] at hstep'
    refine ⟨r', ?_, hstep'⟩
    unfold pckReadStrLstLoop pckReadNull
    rw [hprobe, ok_bind, ok_bind]
    show (pckReadStr r₁ 0 none >>= _) = _
    rw [hread, ok_bind]
    dsimp only
    rw [hloop, ok_bind]
    rfl

/-- **A list of strings is read back.** -/
theorem InStep.strLst {value : StringList}
    (h : InStep s ((Emit.list value.strs).bytes s.top.nullTotal ++ rest) r) (hroom : s.Room)
    (hvalid : s.Valid) :
    ∃ r', pckReadStrLst r 0 = .ok (some (value.strs.map (fun s => some s.bytes)), r') ∧
      InStep s.next rest r' := by
  have hout : (Emit.list value.strs).bytes s.top.nullTotal ++ rest
      = tagBytes .array s.top.nullTotal 0 ++ (strsBytes value.strs ++ (0 :: rest)) := by
    unfold Emit.bytes strsBytes
    simp only [append_assoc, singleton_append]
  rw [hout] at h
  have hsize := value.size_le
  obtain ⟨r₁, r₂, hfalse, -, htag, -, hid, hstack, -, hbytes⟩ :=
    h.present hroom (nextTag_begin (.inl rfl) hroom _)
  have hstep₃ : InStep (pckTagStackPush s.next .array) (strsBytes value.strs ++ (0 :: rest))
      { r₂ with tagStack := pckTagStackPush r₂.tagStack .array } :=
    inStep_of_before hid (by rw [hstack]) rfl hbytes
  obtain ⟨r₄, hloop, hstep₄⟩ := pckReadStrLstLoop_ok value.strs
    ((strsBytes value.strs ++ (0 :: rest)).length + 1) _ _ rest (by
      have := length_le_strsBytes value.strs
      rw [length_append]
      omega) rfl (by
      show 0 + value.strs.length + 1 < 2 ^ 32 - 1 - 1
      omega) hstep₃
  have hvalid₄ : ((pckTagStackPush s.next .array).advance value.strs.length).null.Valid := by
    refine ⟨?_, ?_⟩
    · show 0 + value.strs.length + (0 + 1) < 2 ^ 32 - 1 - 1
      omega
    · intro item hitem
      rcases mem_cons.mp hitem with rfl | hitem
      · exact ⟨rfl, hroom⟩
      · exact hvalid.below item hitem
  obtain ⟨r₅, hend, hstep₅⟩ := hstep₄.close hvalid₄ (cons_ne_nil _ _) rfl
  refine ⟨r₅, ?_, hstep₅⟩
  unfold pckReadStrLst
  rw [hfalse, ok_bind]
  show (pckReadBegin r₁ _ .array >>= _) = _
  unfold pckReadBegin
  rw [htag, ok_bind, ok_bind]
  have hlength : r₂.bytes.length = (strsBytes value.strs ++ (0 :: rest)).length :=
    congrArg length hbytes
  show (pckReadStrLstLoop (r₂.bytes.length + 1) _ >>= _) = _
  rw [hlength, hloop, ok_bind]
  have hend : pckReadArrayEnd r₄ = .ok r₅ := hend
  dsimp only
  rw [hend, ok_bind]

/-! ### All calls -/

/-- **What a call that is allowed can be**: a field, stored or not, a list of
strings, or the begin or the end of a container. -/
theorem open?_cases (h : call.open? s.containers = some after) :
    (s.Room ∧ (call.emit = .missing ∨ (∃ f, call.emit = .field f) ∨
      ∃ value, call = .strLst (some value))) ∨
    (s.Room ∧ (call = .arrayBegin ∨ call = .objBegin)) ∨
    (s.below ≠ [] ∧ (call = .arrayEnd ∧ s.top.typeMap = .array ∨
      call = .objEnd ∧ s.top.typeMap = .obj)) := by
  have hunless : ∀ (leave : Bool) (f : PckField),
      emitUnless leave f = .missing ∨ (∃ g, emitUnless leave f = .field g) ∨
        ∃ value, call = .strLst (some value) := by
    intro leave f
    cases leave with
    | true => exact .inl rfl
    | false => exact .inr (.inl ⟨f, rfl⟩)
  cases call with
  | null => exact .inl ⟨(open?_field h).1, .inl rfl⟩
  | bool | i32 | i64 | mode | u32 | u64 | strId | time =>
    exact .inl ⟨(open?_field h).1, hunless _ _⟩
  | str value defaultWrite defaultValue =>
    cases value with
    | none =>
      cases defaultWrite with
      | true => exact absurd h (by simp [PckWriteCall.open?])
      | false =>
        cases defaultValue with
        | none => exact .inl ⟨(open?_field h).1, .inl rfl⟩
        | some defaultValue => exact absurd h (by simp [PckWriteCall.open?])
    | some value => exact .inl ⟨(open?_field h).1, hunless _ _⟩
  | bin value | pack value =>
    cases value with
    | none => exact .inl ⟨(open?_field h).1, .inl rfl⟩
    | some value => exact .inl ⟨(open?_field h).1, .inr (.inl ⟨_, rfl⟩)⟩
  | strLst value =>
    cases value with
    | none => exact .inl ⟨(open?_field h).1, .inl rfl⟩
    | some value => exact .inl ⟨(open?_field h).1, .inr (.inr ⟨value, rfl⟩)⟩
  | arrayBegin => exact .inr (.inl ⟨(open?_begin h).1, .inl rfl⟩)
  | objBegin => exact .inr (.inl ⟨(open?_begin h).1, .inr rfl⟩)
  | arrayEnd =>
    obtain ⟨hbelow, htype, -⟩ := open?_endOf h
    exact .inr (.inr ⟨hbelow, .inl ⟨rfl, htype⟩⟩)
  | objEnd =>
    obtain ⟨hbelow, htype, -⟩ := open?_endOf h
    exact .inr (.inr ⟨hbelow, .inr ⟨rfl, htype⟩⟩)

section

variable (hvalid : s.Valid)
include hvalid

theorem PackTagStack.Valid.succ (hroom : s.Room) : s.next.Valid :=
  ⟨hroom, hvalid.below⟩

theorem PackTagStack.Valid.push (hroom : s.Room) (typeMap : PackTypeMap) :
    (pckTagStackPush s.next typeMap).Valid := by
  refine ⟨by show 0 + 0 < UINT_MAX - 1; decide, fun item hitem => ?_⟩
  rcases mem_cons.mp hitem with rfl | hitem
  · exact ⟨rfl, hroom⟩
  · exact hvalid.below item hitem

theorem PackTagStack.Valid.pop : (pckTagStackPop s).Valid := by
  unfold pckTagStackPop
  cases hbelow : s.below with
  | nil => exact hvalid
  | cons item below =>
    have hmem := hvalid.below
    rw [hbelow] at hmem
    obtain ⟨hnull, hlast⟩ := hmem item mem_cons_self
    refine ⟨?_, fun other hother => hmem other (mem_cons_of_mem _ hother)⟩
    dsimp only
    omega

theorem PackTagStack.Valid.emit {after : OpenContainers} (h : call.open? s.containers = some after) :
    (call.emit.stack s).Valid := by
  rcases open?_cases h with ⟨hroom, hemit | ⟨f, hemit⟩ | ⟨value, rfl⟩⟩ | ⟨hroom, rfl | rfl⟩ |
    ⟨-, ⟨rfl, -⟩ | ⟨rfl, -⟩⟩
  · rw [hemit]
    exact ⟨hroom, hvalid.below⟩
  · rw [hemit]
    exact hvalid.succ hroom
  · exact hvalid.succ hroom
  · exact hvalid.push hroom _
  · exact hvalid.push hroom _
  · exact hvalid.pop
  · exact hvalid.pop

theorem PackTagStack.Valid.nextTag_end (rest : List UInt8) :
    NextTag s (0 :: rest) (fun r => s.top.idLast + s.top.nullTotal < r.tagNextId) := by
  refine (PgxBackup.nextTag_end rest).imp (fun r h => ?_)
  rw [h.1]
  exact lt_of_lt_of_le hvalid.top (Nat.sub_le _ _)

/-- **The next tag of a call** belongs to a field that was not counted yet, if
that after the call does. -/
theorem PckWriteCall.nextTag {after : OpenContainers} (hopen : call.open? s.containers = some after)
    (hnext : NextTag (call.emit.stack s) out (fun r =>
      (call.emit.stack s).top.idLast + (call.emit.stack s).top.nullTotal < r.tagNextId)) :
    NextTag s (call.emit.bytes s.top.nullTotal ++ out)
      (fun r => s.top.idLast + s.top.nullTotal < r.tagNextId) := by
  have hat : ∀ {f : PckField} {bytes : List UInt8} (r : PackRead), AtField s f bytes r →
      s.top.idLast + s.top.nullTotal < r.tagNextId := by
    intro f bytes r h
    rw [h.tagNextId]
    exact Nat.lt_succ_self _
  rcases open?_cases hopen with ⟨hroom, hemit | ⟨f, hemit⟩ | ⟨value, rfl⟩⟩ |
    ⟨hroom, rfl | rfl⟩ | ⟨-, ⟨rfl, -⟩ | ⟨rfl, -⟩⟩
  · -- nothing was stored: the next tag is that of the calls after it
    rw [hemit] at hnext ⊢
    refine NextTag.imp hnext.of_null (fun r h => ?_)
    have h : s.top.idLast + (s.top.nullTotal + 1) < r.tagNextId := h
    omega
  · rw [hemit]
    exact (nextTag_field (call.emit_fits hemit) hroom _).imp hat
  · show NextTag s (_ ++ (_ ++ [0]) ++ _) _
    rw [append_assoc]
    exact (nextTag_begin (.inl rfl) hroom _).imp hat
  · exact (nextTag_begin (.inl rfl) hroom _).imp hat
  · exact (nextTag_begin (.inr rfl) hroom _).imp hat
  · exact hvalid.nextTag_end _
  · exact hvalid.nextTag_end _

end

theorem emitted_nextTag (rest : List UInt8) (calls : List PckWriteCall) (s : PackTagStack)
    (hvalid : s.Valid) (hallowed : CallsAllowed s.containers calls) :
    NextTag s (emitted rest s calls) (fun r => s.top.idLast + s.top.nullTotal < r.tagNextId) := by
  induction calls generalizing s with
  | nil => exact hvalid.nextTag_end rest
  | cons call calls ih =>
    obtain ⟨after, hopen, hcalls⟩ := hallowed
    obtain ⟨-, -, -, hafter⟩ := pckWriteCall_ok call ⟨none, [], [], s⟩ hopen
    rw [← hafter] at hcalls
    exact call.nextTag hvalid hopen (ih _ (hvalid.emit hopen) hcalls)

/-- **One call**: it returns what was written and the reader stays in step. -/
theorem pckReadCall_ok
    (hcorresponds : Corresponds call read) (hopen : call.open? s.containers = some after)
    (hvalid : s.Valid)
    (hnext : NextTag (call.emit.stack s) out (fun r =>
      (call.emit.stack s).top.idLast + (call.emit.stack s).top.nullTotal < r.tagNextId))
    (h : InStep s (call.emit.bytes s.top.nullTotal ++ out) r) :
    ∃ r', pckReadCall r read = .ok (writtenValue call read, r') ∧
      InStep (call.emit.stack s) out r' := by
  rcases open?_cases hopen with ⟨hroom, hemit | ⟨f, hemit⟩ | ⟨value, rfl⟩⟩ | ⟨hroom, rfl | rfl⟩ |
    ⟨hbelow, ⟨rfl, htype⟩ | ⟨rfl, htype⟩⟩
  · -- a missing field
    obtain ⟨hfield, hvalue⟩ := writtenValue_missing hcorresponds hopen hemit
    rw [hemit] at h hnext ⊢
    obtain ⟨r', hread, hstep⟩ := h.null hroom (NextTag.of_null hnext)
    exact ⟨r', by rw [hvalue]; exact pckReadCall_missing hfield hread, hstep⟩
  · -- a stored field
    rw [hemit] at h ⊢
    obtain ⟨r₁, r₂, hfalse, -, htag, -, hid, hstack, hsize, hbytes⟩ :=
      h.present hroom (nextTag_field (call.emit_fits hemit) hroom out)
    obtain ⟨r', hread, hid', hstack', hbytes'⟩ :=
      pckReadCall_found hcorresponds hemit hfalse htag hsize hbytes
    exact ⟨r', hread, inStep_of_before (hid'.trans hid) (hstack'.trans hstack) rfl hbytes'⟩
  · cases hcorresponds
    obtain ⟨r', hread, hstep⟩ := InStep.strLst h hroom hvalid
    exact ⟨r', congrArg (pckValue PckValue.strLst) hread, hstep⟩
  · cases hcorresponds
    obtain ⟨r', hread, hstep⟩ := InStep.begin h hroom (.inl rfl)
    refine ⟨r', ?_, hstep⟩
    show (pckReadBegin r 0 .array >>= _) = _
    rw [hread]
    rfl
  · cases hcorresponds
    obtain ⟨r', hread, hstep⟩ := InStep.begin h hroom (.inr rfl)
    refine ⟨r', ?_, hstep⟩
    show (pckReadBegin r 0 .obj >>= _) = _
    rw [hread]
    rfl
  · cases hcorresponds
    obtain ⟨r', hread, hstep⟩ := InStep.close h hvalid hbelow htype
    refine ⟨r', ?_, hstep⟩
    show (pckReadContainerEnd r .array >>= _) = _
    rw [hread]
    rfl
  · cases hcorresponds
    obtain ⟨r', hread, hstep⟩ := InStep.close h hvalid hbelow htype
    refine ⟨r', ?_, hstep⟩
    show (pckReadContainerEnd r .obj >>= _) = _
    rw [hread]
    rfl

theorem pckReadEnd_ok (h : InStep s (0 :: rest) r) (hvalid : s.Valid)
    (hbelow : s.below = []) : ∃ r', pckReadEnd r = .ok r' ∧ r'.bytes = rest := by
  obtain ⟨r', hread, hbytes, -⟩ := h.atEnd hvalid
  obtain ⟨hrbelow, -⟩ := h.below (nextTag_end rest)
  refine ⟨r', ?_, hbytes⟩
  unfold pckReadEnd
  rw [if_neg (by rw [hrbelow, hbelow]; simp), hread, ok_bind]

/-- **All calls** return what was written, up to the end of the pack. -/
theorem pckReadCalls_ok (rest : List UInt8) (calls : List (PckWriteCall × PckReadCall))
    (hcorresponds : ∀ call ∈ calls, Corresponds call.1 call.2) (s : PackTagStack) (r : PackRead)
    (hvalid : s.Valid) (hallowed : CallsAllowed s.containers (calls.map Prod.fst))
    (h : InStep s (emitted rest s (calls.map Prod.fst)) r) :
    ∃ r', pckReadCalls r (calls.map Prod.snd)
        = .ok (calls.map (fun call => writtenValue call.1 call.2), r') ∧ r'.bytes = rest := by
  induction calls generalizing s r with
  | nil =>
    obtain ⟨r', hread, hbytes⟩ := pckReadEnd_ok h hvalid (map_eq_nil_iff.mp hallowed)
    refine ⟨r', ?_, hbytes⟩
    show (pckReadEnd r >>= _) = _
    rw [hread]
    rfl
  | cons call calls ih =>
    obtain ⟨after, hopen, hcalls⟩ := hallowed
    obtain ⟨-, -, -, hafter⟩ := pckWriteCall_ok call.1 ⟨none, [], [], s⟩ hopen
    rw [← hafter] at hcalls
    rw [forall_mem_cons] at hcorresponds
    have hvalid' := hvalid.emit hopen
    obtain ⟨r₁, hread₁, hstep₁⟩ := pckReadCall_ok hcorresponds.1 hopen hvalid
      (emitted_nextTag rest _ _ hvalid' hcalls) h
    obtain ⟨r', hread, hbytes⟩ := ih hcorresponds.2 _ r₁ hvalid' hcalls hstep₁
    refine ⟨r', ?_, hbytes⟩
    show (pckReadCall r call.2 >>= _) = _
    rw [hread₁, ok_bind]
    dsimp only
    rw [hread, ok_bind]
    rfl

/-- **Pack read undoes pack write.** Calls that are allowed write a pack, to a
buffer or to a stream; the corresponding calls read the written values from
it, from a buffer or from a stream, and end at its last byte. -/
theorem pckReadCalls_pckWriteCalls (write read : Option ℕ+)
    (calls : List (PckWriteCall × PckReadCall))
    (hcorresponds : ∀ call ∈ calls, Corresponds call.1 call.2)
    (hallowed : CallsAllowed ((.obj, 0), []) (calls.map Prod.fst)) :
    ∃ w r, pckWriteCalls (pckWriteNew write) (calls.map Prod.fst) = .ok w ∧
      pckReadCalls (pckReadNew read (pckWriteResult w)) (calls.map Prod.snd)
        = .ok (calls.map (fun call => writtenValue call.1 call.2), r) ∧ r.bytes = [] := by
  obtain ⟨w, hwrite, hresult⟩ := pckWriteCalls_ok (calls.map Prod.fst) (pckWriteNew write)
    (fun _ => rfl) hallowed
  have hstep : InStep .bottom (emitted [] .bottom (calls.map Prod.fst))
      (pckReadNew read (pckWriteResult w)) := inStep_of_before rfl rfl rfl hresult
  have hvalid : PackTagStack.bottom.Valid :=
    ⟨by show 0 + 0 < UINT_MAX - 1; decide, fun item hitem => absurd hitem not_mem_nil⟩
  obtain ⟨r, hread, hbytes⟩ :=
    pckReadCalls_ok [] calls hcorresponds .bottom _ hvalid hallowed hstep
  exact ⟨w, r, hwrite, hread, hbytes⟩

/-- Fields, a default that is not stored, and an array with a null and a
string, which are read with an explicit default and as missing. -/
def packSample : List (PckWriteCall × PckReadCall) :=
  [(.u64 77 false 0, .u64 0), (.bool false true 0, .bool 0), (.i32 (-1) false (-1), .i32 (-1)),
    (.arrayBegin, .arrayBegin), (.null, .time 5),
    (.str (some ⟨[115, 117, 98], by decide, by decide⟩) false none, .str none), (.null, .null),
    (.arrayEnd, .arrayEnd), (.bin (some ⟨[], by decide⟩), .bin)]

theorem pckReadCalls_pckWriteCalls_sample :
    ∃ w r, pckWriteCalls (pckWriteNew (some 3)) (packSample.map Prod.fst) = .ok w ∧
      pckReadCalls (pckReadNew none (pckWriteResult w)) (packSample.map Prod.snd)
        = .ok ([.u64 77, .bool false, .i32 (-1), .void, .time 5, .str (some [115, 117, 98]),
            .null true, .void, .bin (some [])], r) ∧ r.bytes = [] := by
  refine pckReadCalls_pckWriteCalls (some 3) none packSample ?_ ?_
  · unfold packSample
    simp only [forall_mem_cons]
    exact ⟨rfl, rfl, rfl, rfl, rfl, rfl, rfl, rfl, rfl, fun _ h => absurd h not_mem_nil⟩
  · exact ⟨_, rfl, _, rfl, _, rfl, _, rfl, _, rfl, _, rfl, _, rfl, _, rfl, _, rfl, rfl⟩

end Read

end PgxBackup
