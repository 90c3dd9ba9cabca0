import PgxBackup.PackRoundTrip

/-!
# Explicit and automatic ids

A write call may give the id of its field. What was left out since the last
stored field is then not counted any more, and the ids continue after the
given one. A call that leaves its field out, however, only counts one more
null, whatever id it gives, while the read call goes on to the id it was
given. From there on the writer is behind (`Behind`), until an explicit id is
stored: automatic ids that are stored before are too small, and the reader
skips their fields.
-/

namespace PgxBackup

/-! ## Calls with ids -/

/-- Make a write call with an id, zero for an automatic one. A `NULL` and the
end of a container have no id. -/
def pckWriteCallId (this : PackWrite) (id : ℕ) : PckWriteCall → Except Error PackWrite
  | .null => .ok (pckWriteNull this)
  | .bool value defaultWrite defaultValue => pckWriteBool this value id defaultWrite defaultValue
  | .i32 value defaultWrite defaultValue => pckWriteI32 this value id defaultWrite defaultValue
  | .i64 value defaultWrite defaultValue => pckWriteI64 this value id defaultWrite defaultValue
  | .mode value defaultWrite defaultValue => pckWriteMode this value id defaultWrite defaultValue
  | .u32 value defaultWrite defaultValue => pckWriteU32 this value id defaultWrite defaultValue
  | .u64 value defaultWrite defaultValue => pckWriteU64 this value id defaultWrite defaultValue
  | .strId value defaultWrite defaultValue => pckWriteStrId this value id defaultWrite defaultValue
  | .time value defaultWrite defaultValue => pckWriteTime this value id defaultWrite defaultValue
  | .str value defaultWrite defaultValue => pckWriteStr this value id defaultWrite defaultValue
  | .bin value => pckWriteBin this value id
  | .pack value => pckWritePack this value id
  | .strLst value => pckWriteStrLst this value id
  | .arrayBegin => pckWriteArrayBegin this id
  | .arrayEnd => pckWriteArrayEnd this
  | .objBegin => pckWriteObjBegin this id
  | .objEnd => pckWriteObjEnd this

/-- Make a read call with an id, zero for an automatic one. -/
def pckReadCallId (this : PackRead) (id : ℕ) : PckReadCall → Except Error (PckValue × PackRead)
  | .null => pckValue .null (pckReadNull this id)
  | .bool defaultValue => pckValue .bool (pckReadBool this id defaultValue)
  | .i32 defaultValue => pckValue .i32 (pckReadI32 this id defaultValue)
  | .i64 defaultValue => pckValue .i64 (pckReadI64 this id defaultValue)
  | .mode defaultValue => pckValue .mode (pckReadMode this id defaultValue)
  | .u32 defaultValue => pckValue .u32 (pckReadU32 this id defaultValue)
  | .u64 defaultValue => pckValue .u64 (pckReadU64 this id defaultValue)
  | .strId defaultValue => pckValue .strId (pckReadStrId this id defaultValue)
  | .time defaultValue => pckValue .time (pckReadTime this id defaultValue)
  | .str defaultValue => pckValue .str (pckReadStr this id (defaultValue.map ByteStr.bytes))
  | .bin => pckValue .bin (pckReadBin this id)
  | .pack => pckValue .pack (pckReadPack this id)
  | .strLst => pckValue .strLst (pckReadStrLst this id)
  | .arrayBegin => do .ok (.void, ← pckReadArrayBegin this id)
  | .arrayEnd => do .ok (.void, ← pckReadArrayEnd this)
  | .objBegin => do .ok (.void, ← pckReadObjBegin this id)
  | .objEnd => do .ok (.void, ← pckReadObjEnd this)

/-- A write call with the read call for it and the id of both. -/
structure PckIdCall where
  id : ℕ
  write : PckWriteCall
  read : PckReadCall

/-- Write all fields and end the pack. -/
def pckWriteIdCalls (this : PackWrite) : List PckIdCall → Except Error PackWrite
  | [] => pckWriteEnd this
  | call :: calls => do
    let this ← pckWriteCallId this call.id call.write
    pckWriteIdCalls this calls

/-- Read all fields and the end of the pack. -/
def pckReadIdCalls (this : PackRead) : List PckIdCall → Except Error (List PckValue × PackRead)
  | [] => do .ok ([], ← pckReadEnd this)
  | call :: calls => do
    let (value, this) ← pckReadCallId this call.id call.read
    let (values, this) ← pckReadIdCalls this calls
    .ok (value :: values, this)

theorem pckWriteCallId_zero (this : PackWrite) (call : PckWriteCall) :
    pckWriteCallId this 0 call = pckWriteCall this call := by
  cases call <;> rfl

theorem pckReadCallId_zero (this : PackRead) (call : PckReadCall) :
    pckReadCallId this 0 call = pckReadCall this call := by
  cases call <;> rfl

/-! ## Sequences that are allowed -/

/-- Can the call be given an id? -/
def PckWriteCall.hasId : PckWriteCall → Bool
  | .null | .arrayEnd | .objEnd => false
  | _ => true

/-- The containers as they are for the fields up to an id. -/
def upToId (containers : OpenContainers) (id : ℕ) : OpenContainers :=
  if id = 0 then containers else ((containers.1.1, id - 1), containers.2)

/-- The containers after a call, or `none` if the call is not allowed there. The
second component of a container is the last id that was used in it: an
explicit id is larger. -/
def PckIdCall.open? (containers : OpenContainers) (call : PckIdCall) : Option OpenContainers :=
  if call.id = 0 ∨ call.write.hasId = true ∧ containers.1.2 < call.id then
    call.write.open? (upToId containers call.id)
  else none

/-- **Every call is allowed** and all containers are closed at the end. -/
def IdCallsAllowed (containers : OpenContainers) : List PckIdCall → Prop
  | [] => containers.2 = []
  | call :: calls => ∃ after, call.open? containers = some after ∧ IdCallsAllowed after calls

/-- Does the call store a tag? -/
def Emit.hasTag : Emit → Bool
  | .field _ | .list _ | .opens _ => true
  | .missing | .closes _ => false

/-- Has the writer counted fewer ids than were used? It has after a field with
an explicit id that is not the next one was left out, until the next tag is
stored. -/
def PckIdCall.behind (containers : OpenContainers) (behind : Bool) (call : PckIdCall) : Bool :=
  match call.write.emit with
  | .missing => behind || decide (call.id ≠ 0 ∧ call.id ≠ containers.1.2 + 1)
  | _ => false

/-- **No tag is stored with an automatic id while the writer is behind.** -/
def IdsKept (containers : OpenContainers) (behind : Bool) : List PckIdCall → Prop
  | [] => True
  | call :: calls =>
    (call.write.emit.hasTag = true → call.id = 0 → behind = false) ∧
      ∀ after, call.open? containers = some after →
        IdsKept after (call.behind containers behind) calls

instance IdsKept.decidable (containers : OpenContainers) (behind : Bool) (calls : List PckIdCall) :
    Decidable (IdsKept containers behind calls) :=
  match calls with
  | [] => isTrue trivial
  | call :: calls =>
    match hopen : call.open? containers with
    | none => decidable_of_iff (call.write.emit.hasTag = true → call.id = 0 → behind = false)
        ⟨fun h => ⟨h, fun after hafter => by rw [hopen] at hafter; cases hafter⟩, And.left⟩
    | some after =>
      have := IdsKept.decidable after (call.behind containers behind) calls
      decidable_of_iff ((call.write.emit.hasTag = true → call.id = 0 → behind = false) ∧
          IdsKept after (call.behind containers behind) calls)
        ⟨fun h => ⟨h.1, fun after' hafter => by
          rw [hopen] at hafter
          exact Option.some.inj hafter ▸ h.2⟩, fun h => ⟨h.1, h.2 after hopen⟩⟩

/-- The containers of the writer for a field with an id: the ids before it are
counted as nulls. -/
def PackTagStack.request (s : PackTagStack) (id : ℕ) : PackTagStack :=
  if id = 0 then s else { s with top := { s.top with nullTotal := id - 1 - s.top.idLast } }

/-- The bytes of all calls and of the end of the pack, if every id is as it was
given. -/
def emittedId : PackTagStack → List PckIdCall → List UInt8
  | _, [] => [0]
  | s, call :: calls =>
    call.write.emit.bytes (s.request call.id).top.nullTotal
      ++ emittedId (call.write.emit.stack (s.request call.id)) calls

section Request

variable {s t : PackTagStack} {id : ℕ} {call : PckIdCall} {after : OpenContainers}

@[simp] theorem PackTagStack.request_zero (s : PackTagStack) : s.request 0 = s := if_pos rfl

theorem PackTagStack.request_of_ne (h : id ≠ 0) :
    s.request id = { s with top := { s.top with nullTotal := id - 1 - s.top.idLast } } := if_neg h

/-- What is allowed is allowed to the writer with the ids up to it. -/
theorem PckIdCall.open?_request (h : call.open? s.containers = some after) :
    call.write.open? (s.request call.id).containers = some after ∧
      (call.id = 0 ∨ call.write.hasId = true ∧ s.top.idLast + s.top.nullTotal < call.id) := by
  unfold PckIdCall.open? at h
  split at h
  · rename_i hid
    refine ⟨?_, hid⟩
    rw [← h]
    congr 1
    unfold upToId
    by_cases hzero : call.id = 0
    · rw [if_pos hzero, hzero, PackTagStack.request_zero]
    · have hlt : s.top.idLast + s.top.nullTotal < call.id := (hid.resolve_left hzero).2
      have hsum : s.top.idLast + (call.id - 1 - s.top.idLast) = call.id - 1 := by omega
      rw [if_neg hzero, PackTagStack.request_of_ne hzero]
      show ((s.top.typeMap, s.top.idLast + (call.id - 1 - s.top.idLast)), _) = _
      rw [hsum]
      rfl
  · cases h

section

variable {call : PckWriteCall} (h : call.open? s.containers = some after)
include h

theorem room_or_closes : s.Room ∨ call = .arrayEnd ∨ call = .objEnd := by
  rcases open?_cases h with ⟨hroom, -⟩ | ⟨hroom, -⟩ | ⟨-, ⟨rfl, -⟩ | ⟨rfl, -⟩⟩
  · exact .inl hroom
  · exact .inl hroom
  · exact .inr (.inl rfl)
  · exact .inr (.inr rfl)

theorem room_of_hasId (hhas : call.hasId = true) : s.Room := by
  refine (room_or_closes h).resolve_right (fun hends => ?_)
  cases hends with
  | inl hend | inr hend => rw [hend] at hhas; cases hhas

theorem open?_containers : (call.emit.stack s).containers = after := by
  obtain ⟨-, -, -, hafter⟩ := pckWriteCall_ok call ⟨none, [], [], s⟩ h
  exact hafter

end

theorem PackTagStack.Valid.request (hvalid : s.Valid)
    (h : call.open? s.containers = some after) : (s.request call.id).Valid := by
  obtain ⟨hopen, hid⟩ := PckIdCall.open?_request h
  by_cases hzero : call.id = 0
  · rw [hzero, PackTagStack.request_zero]
    exact hvalid
  · obtain ⟨hhas, hlt⟩ := hid.resolve_left hzero
    have hroom := room_of_hasId hopen hhas
    rw [PackTagStack.request_of_ne hzero] at hroom ⊢
    unfold PackTagStack.Room at hroom
    exact ⟨by dsimp only at hroom ⊢; omega, hvalid.below⟩

end Request

/-! ## The writer -/

section Write

variable {w : PackWrite} {s t : PackTagStack} {id : ℕ} {after : OpenContainers}

/-- The writer with other containers. -/
def PackWrite.withStack (this : PackWrite) (tagStack : PackTagStack) : PackWrite :=
  { this with tagStack := tagStack }

theorem pckWriteBuffer_withStack (w : PackWrite) (s : PackTagStack) (bytes : List UInt8) :
    pckWriteBuffer (w.withStack s) bytes = (pckWriteBuffer w bytes).withStack s := by
  obtain ⟨write, sent, buffer, tagStack⟩ := w
  unfold pckWriteBuffer PackWrite.withStack
  cases write with
  | none => rfl
  | some bufferSize =>
    dsimp only
    split
    · rfl
    · split
      · rfl
      · rfl

theorem pckWriteU64If_withStack (w : PackWrite) (s : PackTagStack) (condition : Bool) (value : ℕ) :
    pckWriteU64If (w.withStack s) condition value
      = (pckWriteU64If w condition value).map (fun this => this.withStack s) := by
  unfold pckWriteU64If
  split
  · unfold pckWriteU64Internal
    cases cvtUInt64ToVarInt128 CVT_VARINT128_BUFFER_SIZE value with
    | error error => rfl
    | ok bytes =>
      show Except.ok (pckWriteBuffer (w.withStack s) bytes) = _
      rw [pckWriteBuffer_withStack]
      rfl
  · rfl

theorem pckWriteU64If_below {w' : PackWrite} {condition : Bool} {value : ℕ}
    (h : pckWriteU64If w condition value = .ok w') : w'.tagStack = w.tagStack := by
  unfold pckWriteU64If at h
  split at h
  · unfold pckWriteU64Internal at h
    obtain ⟨bytes, hbytes, h⟩ := ok_of_bind h
    cases h
    exact (wrote_pckWriteBuffer w bytes).tagStack
  · rw [Except.ok.inj h]

variable {typeMap : PackTypeMap} {behind : Bool}

/-- **A tag with an explicit id** is that of the ids before it counted as
nulls. -/
theorem pckWriteTag_request {value : ℕ} (hid : id ≠ 0)
    (hlast : w.tagStack.top.idLast < id) (hlt : id < 2 ^ 32) :
    pckWriteTag w typeMap id value
      = pckWriteTag (w.withStack (w.tagStack.request id)) typeMap 0 value := by
  have hleft : pckWriteTagId w.tagStack.top id = .ok id := by
    unfold pckWriteTagId
    rw [if_neg hid, if_pos hlast]
  have hright : pckWriteTagId (w.tagStack.request id).top 0 = .ok id := by
    unfold pckWriteTagId
    rw [if_pos rfl, PackTagStack.request_of_ne hid]
    rw [show w.tagStack.top.idLast + (id - 1 - w.tagStack.top.idLast) + 1 = id by omega,
      u32_of_lt hlt]
  have htop : (w.tagStack.request id).top.idLast = w.tagStack.top.idLast ∧
      (w.tagStack.request id).top.typeMap = w.tagStack.top.typeMap ∧
      (w.tagStack.request id).below = w.tagStack.below := by
    rw [PackTagStack.request_of_ne hid]
    exact ⟨rfl, rfl, rfl⟩
  generalize w.tagStack.request id = s at hright htop ⊢
  obtain ⟨hidLast, htypeMap, hbelow⟩ := htop
  unfold pckWriteTag
  dsimp only
  rw [show (w.withStack s).tagStack = s from rfl, hleft, hright, ok_bind, ok_bind, hidLast,
    htypeMap]
  congr 1
  funext _
  generalize pckTagBits typeMap (u32 (id + 2 ^ 32 - (w.tagStack.top.idLast + 1))) value = bits
  obtain ⟨tag, tagId, rest⟩ := bits
  have hstack := (wrote_pckWriteBuffer w [UInt8.ofNat tag]).tagStack
  rw [pckWriteBuffer_withStack, pckWriteU64If_withStack]
  generalize pckWriteBuffer w [UInt8.ofNat tag] = w₁ at hstack ⊢
  cases hok₂ : pckWriteU64If w₁ (typeMap.toNat ≥ 0xF) (typeMap.toNat - 0xF) with
  | error error => rfl
  | ok w₂ =>
    rw [ok_bind]
    show _ = (pckWriteU64If (w₂.withStack s) _ _ >>= _)
    rw [pckWriteU64If_withStack]
    cases hok₃ : pckWriteU64If w₂ (tagId > 0) tagId with
    | error error => rfl
    | ok w₃ =>
      rw [ok_bind]
      show _ = (pckWriteU64If (w₃.withStack s) _ _ >>= _)
      rw [pckWriteU64If_withStack]
      cases hok₄ : pckWriteU64If w₃ (rest > 0) rest with
      | error error => rfl
      | ok w₄ =>
        have hw₄ : w₄.tagStack = w.tagStack := by
          rw [pckWriteU64If_below hok₄, pckWriteU64If_below hok₃, pckWriteU64If_below hok₂, hstack]
        rw [ok_bind]
        show Except.ok _ = Except.ok _
        unfold PackWrite.withStack
        rw [hw₄, hbelow]

theorem pckWriteField_of_hasTag {defaultWrite defaultEqual : Bool} {f : PckField}
    (h : (emitUnless (!defaultWrite && defaultEqual) f).hasTag = true)
    (field : PackWrite → Except Error PackWrite) :
    pckWriteField w defaultWrite defaultEqual field = field w := by
  unfold pckWriteField
  cases hleave : (!defaultWrite && defaultEqual) with
  | true =>
    rw [hleave] at h
    cases h
  | false => rfl

theorem pckWriteData_request (bytes : List UInt8) (hid : id ≠ 0)
    (hlast : w.tagStack.top.idLast < id) (hlt : id < 2 ^ 32) :
    pckWriteData w typeMap id bytes
      = pckWriteData (w.withStack (w.tagStack.request id)) typeMap 0 bytes := by
  unfold pckWriteData
  rw [pckWriteTag_request hid hlast hlt]

theorem pckWriteBegin_request (hid : id ≠ 0)
    (hlast : w.tagStack.top.idLast < id) (hlt : id < 2 ^ 32) :
    pckWriteBegin w id typeMap
      = pckWriteBegin (w.withStack (w.tagStack.request id)) 0 typeMap := by
  unfold pckWriteBegin
  rw [pckWriteTag_request hid hlast hlt]

/-- **A call that stores a tag with an explicit id** writes what it writes with
an automatic one after the ids before it. -/
theorem pckWriteCallId_request {call : PckWriteCall} (htag : call.emit.hasTag = true)
    (hid : id ≠ 0) (hlast : w.tagStack.top.idLast < id) (hlt : id < 2 ^ 32) :
    pckWriteCallId w id call = pckWriteCall (w.withStack (w.tagStack.request id)) call := by
  have hnumber : ∀ {defaultWrite defaultEqual : Bool} {typeMap : PackTypeMap} {value : ℕ}
      {f : PckField}, (emitUnless (!defaultWrite && defaultEqual) f).hasTag = true →
      pckWriteField w defaultWrite defaultEqual (fun this => pckWriteTag this typeMap id value)
        = pckWriteField (w.withStack (w.tagStack.request id)) defaultWrite defaultEqual
            (fun this => pckWriteTag this typeMap 0 value) := by
    intro defaultWrite defaultEqual typeMap value f h
    rw [pckWriteField_of_hasTag h, pckWriteField_of_hasTag h]
    exact pckWriteTag_request hid hlast hlt
  cases call with
  | null | arrayEnd | objEnd => cases htag
  | bool | i32 | i64 | mode | u32 | u64 | strId | time => exact hnumber htag
  | str value defaultWrite defaultValue =>
    cases value with
    | none => cases htag
    | some value =>
      dsimp only [pckWriteCallId, pckWriteCall, pckWriteStr]
      rw [pckWriteField_of_hasTag htag, pckWriteField_of_hasTag htag]
      exact pckWriteData_request value.bytes hid hlast hlt
  | bin value =>
    cases value with
    | none => cases htag
    | some value => exact pckWriteData_request value.bytes hid hlast hlt
  | pack value =>
    cases value with
    | none => cases htag
    | some value =>
      show (pckWriteTag w .pack id 0 >>= _) = (pckWriteTag _ .pack 0 0 >>= _)
      rw [pckWriteTag_request hid hlast hlt]
  | strLst value =>
    cases value with
    | none => cases htag
    | some value =>
      show (pckWriteBegin w id .array >>= _) = (pckWriteBegin _ 0 .array >>= _)
      rw [pckWriteBegin_request hid hlast hlt]
  | arrayBegin | objBegin => exact pckWriteBegin_request hid hlast hlt

/-- A call that stores nothing counts a null, whatever id it gives. -/
theorem pckWriteCallId_missing {call : PckWriteCall} {containers : OpenContainers}
    (hopen : call.open? containers = some after) (hmissing : call.emit = .missing) (id : ℕ) :
    pckWriteCallId w id call = .ok (pckWriteNull w) := by
  have hleave : ∀ {defaultWrite defaultEqual : Bool} {f : PckField}
      (field : PackWrite → Except Error PackWrite),
      emitUnless (!defaultWrite && defaultEqual) f = .missing →
      pckWriteField w defaultWrite defaultEqual field = .ok (pckWriteNull w) := by
    intro defaultWrite defaultEqual f field h
    exact if_pos (emitUnless_missing h)
  cases call with
  | null => rfl
  | bool value => exact hleave (fun this => pckWriteTag this .bool id value.toNat) hmissing
  | i32 value => exact hleave (fun this => pckWriteTag this .i32 id (cvtInt32ToZigZag value)) hmissing
  | i64 value =>
    exact hleave (fun this => pckWriteTag this .i64 id (cvtInt64ToZigZag value.toInt)) hmissing
  | mode value => exact hleave (fun this => pckWriteTag this .mode id value.toNat) hmissing
  | u32 value => exact hleave (fun this => pckWriteTag this .u32 id value.toNat) hmissing
  | u64 value => exact hleave (fun this => pckWriteTag this .u64 id value.toNat) hmissing
  | strId value => exact hleave (fun this => pckWriteTag this .strId id value.toNat) hmissing
  | time value =>
    exact hleave (fun this => pckWriteTag this .time id (cvtInt64ToZigZag value.toInt)) hmissing
  | str value defaultWrite defaultValue =>
    cases value with
    | none =>
      -- a NULL can only be left out
      cases defaultWrite with
      | true => exact absurd hopen (by simp [PckWriteCall.open?])
      | false =>
        cases defaultValue with
        | none => rfl
        | some defaultValue => exact absurd hopen (by simp [PckWriteCall.open?])
    | some value => exact hleave (fun this => pckWriteData this .str id value.bytes) hmissing
  | bin value | pack value | strLst value =>
    cases value with
    | none => rfl
    | some value => cases hmissing
  | arrayBegin | arrayEnd | objBegin | objEnd => cases hmissing

/-- **The writer has counted fewer ids than were used**, or as many when it is
not behind. -/
structure Behind (behind : Bool) (s t : PackTagStack) : Prop where
  idLast : t.top.idLast = s.top.idLast
  typeMap : t.top.typeMap = s.top.typeMap
  below : t.below = s.below
  nullTotal_le : t.top.nullTotal ≤ s.top.nullTotal
  nullTotal_eq : behind = false → t.top.nullTotal = s.top.nullTotal

theorem Behind.refl (behind : Bool) (s : PackTagStack) : Behind behind s s :=
  ⟨rfl, rfl, rfl, le_rfl, fun _ => rfl⟩

theorem Behind.eq (h : Behind false s t) : t = s := by
  obtain ⟨⟨typeMap, idLast, nullTotal⟩, below⟩ := t
  obtain ⟨⟨typeMap', idLast', nullTotal'⟩, below'⟩ := s
  obtain rfl : idLast = idLast' := h.idLast
  obtain rfl : typeMap = typeMap' := h.typeMap
  obtain rfl : below = below' := h.below
  obtain rfl : nullTotal = nullTotal' := h.nullTotal_eq rfl
  rfl

theorem Behind.request (h : Behind behind s t) (hid : id ≠ 0) :
    t.request id = s.request id := by
  obtain ⟨⟨typeMap, idLast, nullTotal⟩, below⟩ := t
  obtain ⟨⟨typeMap', idLast', nullTotal'⟩, below'⟩ := s
  obtain rfl : idLast = idLast' := h.idLast
  obtain rfl : typeMap = typeMap' := h.typeMap
  obtain rfl : below = below' := h.below
  rw [PackTagStack.request_of_ne hid, PackTagStack.request_of_ne hid]

theorem Behind.missing (h : Behind behind s t)
    (hlt : id = 0 ∨ s.top.idLast + s.top.nullTotal < id) :
    Behind (behind || decide (id ≠ 0 ∧ id ≠ s.top.idLast + s.top.nullTotal + 1))
      (s.request id).null t.null := by
  have hle := h.nullTotal_le
  by_cases hzero : id = 0
  · rw [hzero, PackTagStack.request_zero]
    refine ⟨h.idLast, h.typeMap, h.below, Nat.succ_le_succ hle, fun hnot => ?_⟩
    exact congrArg Nat.succ (h.nullTotal_eq (by simpa using hnot))
  · have hlt := hlt.resolve_left hzero
    rw [PackTagStack.request_of_ne hzero]
    refine ⟨h.idLast, h.typeMap, h.below, ?_, fun hnot => ?_⟩
    · show t.top.nullTotal + 1 ≤ id - 1 - s.top.idLast + 1
      omega
    · rw [Bool.or_eq_false_iff, decide_eq_false_iff_not, not_and, not_not] at hnot
      have hnull := h.nullTotal_eq hnot.1
      show t.top.nullTotal + 1 = id - 1 - s.top.idLast + 1
      omega

/-- **One call** of a writer that may be behind. -/
theorem pckWriteCallId_ok {call : PckIdCall} (hopen : call.open? s.containers = some after)
    (hbehind : Behind behind s w.tagStack)
    (hkept : call.write.emit.hasTag = true → call.id = 0 → behind = false) :
    ∃ w' t', pckWriteCallId w call.id call.write = .ok w' ∧
      Wrote w (call.write.emit.bytes (s.request call.id).top.nullTotal) t' w' ∧
      Behind (call.behind s.containers behind) (call.write.emit.stack (s.request call.id)) t' ∧
      (call.write.emit.stack (s.request call.id)).containers = after := by
  obtain ⟨hwrite, hid⟩ := PckIdCall.open?_request hopen
  have hafter := open?_containers hwrite
  have htagged : call.write.emit.hasTag = true → call.write.hasId = true →
      ∃ w' t', pckWriteCallId w call.id call.write = .ok w' ∧
        Wrote w (call.write.emit.bytes (s.request call.id).top.nullTotal) t' w' ∧
        Behind (call.behind s.containers behind) (call.write.emit.stack (s.request call.id)) t' ∧
        (call.write.emit.stack (s.request call.id)).containers = after := by
    intro htag hhas
    have hfalse : call.behind s.containers behind = false := by
      unfold PckIdCall.behind
      cases hemit : call.write.emit with
      | missing => rw [hemit] at htag; cases htag
      | field | list | opens | closes => rfl
    have heq : w.tagStack.request call.id = s.request call.id ∧
        pckWriteCallId w call.id call.write
          = pckWriteCall (w.withStack (s.request call.id)) call.write := by
      by_cases hzero : call.id = 0
      · rw [hkept htag hzero] at hbehind
        rw [hzero, pckWriteCallId_zero, PackTagStack.request_zero, PackTagStack.request_zero,
          ← hbehind.eq]
        exact ⟨rfl, rfl⟩
      · have hlt := (room_of_hasId hwrite hhas).lt
        rw [PackTagStack.request_of_ne hzero] at hlt
        dsimp only at hlt
        have hwlast : w.tagStack.top.idLast < call.id := by
          rw [hbehind.idLast]
          omega
        rw [← hbehind.request hzero]
        exact ⟨rfl, pckWriteCallId_request htag hzero hwlast (by omega)⟩
    obtain ⟨w', hok, hwrote, -⟩ :=
      pckWriteCall_ok call.write (w.withStack (s.request call.id)) hwrite
    exact ⟨w', _, heq.2.trans hok, ⟨hwrote.write, hwrote.output, hwrote.tagStack, hwrote.sent⟩,
      hfalse ▸ Behind.refl false _, hafter⟩
  have hcloses : ∀ typeMap : PackTypeMap,
      call.write = (if typeMap = .array then .arrayEnd else .objEnd) →
      (s.request call.id).below ≠ [] → (s.request call.id).top.typeMap = typeMap →
      (typeMap = .array ∨ typeMap = .obj) →
      ∃ w' t', pckWriteCallId w call.id call.write = .ok w' ∧
        Wrote w (call.write.emit.bytes (s.request call.id).top.nullTotal) t' w' ∧
        Behind (call.behind s.containers behind) (call.write.emit.stack (s.request call.id)) t' ∧
        (call.write.emit.stack (s.request call.id)).containers = after := by
    intro typeMap hcall hbelow htype hcontainer
    have hemit : call.write.emit = .closes typeMap ∧ call.write.hasId = false ∧
        ∀ this, pckWriteCallId this 0 call.write = pckWriteContainerEnd this typeMap := by
      rw [hcall]
      cases hcontainer with
      | inl harray => subst harray; exact ⟨rfl, rfl, fun _ => rfl⟩
      | inr hobj => subst hobj; exact ⟨rfl, rfl, fun _ => rfl⟩
    have hzero : call.id = 0 := hid.resolve_right (fun h => by rw [hemit.2.1] at h; cases h.1)
    rw [hzero, PackTagStack.request_zero] at hbelow htype hafter ⊢
    have hwtype : w.tagStack.top.typeMap = typeMap := hbehind.typeMap.trans htype
    obtain ⟨w', hok, hwrote⟩ :=
      pckWriteContainerEnd_ok w (by rw [hbehind.below]; exact hbelow) hwtype
    have hpop : pckTagStackPop w.tagStack = pckTagStackPop s := by
      obtain ⟨item, below, hitem⟩ := List.exists_cons_of_ne_nil hbelow
      unfold pckTagStackPop
      rw [hbehind.below, hitem]
    rw [hemit.2.2]
    refine ⟨w', pckTagStackPop w.tagStack, hok, ?_, ?_, hafter⟩
    · rw [hemit.1]
      exact hwrote
    · unfold PckIdCall.behind
      rw [hemit.1, hpop]
      exact Behind.refl false _
  rcases open?_cases hwrite with ⟨hroom, hemit | ⟨f, hemit⟩ | ⟨value, heq⟩⟩ | ⟨-, heq | heq⟩ |
    ⟨hbelow, ⟨heq, htype⟩ | ⟨heq, htype⟩⟩
  · have hle : w.tagStack.Room := by
      have hle := (hbehind.missing (hid.imp_right And.right)).nullTotal_le
      have hlast := (hbehind.missing (hid.imp_right And.right)).idLast
      unfold PackTagStack.Room at hroom ⊢
      have hle : w.tagStack.top.nullTotal + 1 ≤ (s.request call.id).top.nullTotal + 1 := hle
      have hlast : w.tagStack.top.idLast = (s.request call.id).top.idLast := hlast
      omega
    refine ⟨pckWriteNull w, w.tagStack.null, pckWriteCallId_missing hwrite hemit _, ?_, ?_, hafter⟩
    · rw [hemit]
      exact wrote_pckWriteNull hle
    · unfold PckIdCall.behind
      rw [hemit]
      exact hbehind.missing (hid.imp_right And.right)
  · refine htagged (by rw [hemit]; rfl) ?_
    cases hcall : call.write with
    | null | arrayEnd | objEnd => rw [hcall] at hemit; cases hemit
    | _ => rfl
  · exact htagged (by rw [heq]; rfl) (by rw [heq]; rfl)
  · exact htagged (by rw [heq]; rfl) (by rw [heq]; rfl)
  · exact htagged (by rw [heq]; rfl) (by rw [heq]; rfl)
  · exact hcloses .array heq hbelow htype (.inl rfl)
  · exact hcloses .obj heq hbelow htype (.inr rfl)

/-- **All calls succeed** and the pack holds what they emit with their ids. -/
theorem pckWriteIdCalls_ok (calls : List PckIdCall) (w : PackWrite) (s : PackTagStack)
    (hsent : w.write = none → w.sent = []) (hbehind : Behind behind s w.tagStack)
    (hallowed : IdCallsAllowed s.containers calls) (hkept : IdsKept s.containers behind calls) :
    ∃ w', pckWriteIdCalls w calls = .ok w' ∧ pckWriteResult w' = w.output ++ emittedId s calls := by
  induction calls generalizing w s behind with
  | nil =>
    have hbelow : w.tagStack.below = [] := hbehind.below.trans (List.map_eq_nil_iff.mp hallowed)
    exact pckWriteEnd_ok w hbelow hsent
  | cons call calls ih =>
    obtain ⟨after, hopen, hcalls⟩ := hallowed
    obtain ⟨hkept, hrest⟩ := hkept
    obtain ⟨w₁, t₁, hok₁, hw₁, hbehind₁, hafter⟩ := pckWriteCallId_ok hopen hbehind hkept
    have hrest := hrest after hopen
    rw [← hafter] at hcalls hrest
    rw [← hw₁.tagStack] at hbehind₁
    have hsent₁ : w₁.write = none → w₁.sent = [] := fun hnone => by
      have hnone := hw₁.write.symm.trans hnone
      rw [hw₁.sent hnone, hsent hnone]
    obtain ⟨w', hok, hresult⟩ := ih w₁ _ hsent₁ hbehind₁ hcalls hrest
    refine ⟨w', ?_, ?_⟩
    · unfold pckWriteIdCalls
      rw [hok₁, ok_bind]
      exact hok
    · rw [hresult, hw₁.output, List.append_assoc]
      rfl

end Write

/-! ## The reader -/

section Read

variable {s : PackTagStack} {out : List UInt8} {r raw : PackRead} {id last : ℕ}
  {after : OpenContainers}

/-- The reader does not see how many nulls the writer has counted. -/
theorem NextTag.of_request (id : ℕ) {P : PackRead → Prop} (h : NextTag (s.request id) out P) :
    NextTag s out P := by
  have hclear : (s.request id).clear = s.clear := by
    unfold PackTagStack.request
    split
    · rfl
    · rfl
  intro raw hbefore
  exact h raw ⟨hbefore.tagNextId, hbefore.tagStack.trans hclear.symm, hbefore.bytes⟩

/-- **A reader that is asked for an id** is in step with a writer that has
counted the ids before it. -/
theorem InStep.request (h : InStep s out r) (hid : id ≠ 0)
    (hlast : s.top.idLast + s.top.nullTotal < id) {P : PackRead → Prop} (hnext : NextTag s out P)
    (hle : ∀ raw, P raw → id ≤ raw.tagNextId) :
    ∃ raw : PackRead, pckReadTagLook r = .ok (raw.setIdLast (s.top.idLast + s.top.nullTotal)) ∧
      r.tagStack.top.idLast = s.top.idLast + s.top.nullTotal ∧ P raw ∧
      InStep (s.request id) out (raw.setIdLast (id - 1)) := by
  obtain ⟨raw, found, raw', hbefore, htag, hstack, hP, hlooks, hrlast⟩ :=
    h.looks hnext (fun raw' h => Nat.ne_of_gt (lt_of_lt_of_le (by omega) (hle raw' h)))
  refine ⟨raw', hlooks, hrlast, hP, raw, ?_, .inr ⟨found, raw', htag, ?_⟩⟩
  · rw [PackTagStack.request_of_ne hid]
    exact ⟨hbefore.tagNextId, hbefore.tagStack, hbefore.bytes⟩
  · rw [PackTagStack.request_of_ne hid]
    rw [show s.top.idLast + (id - 1 - s.top.idLast) = id - 1 by omega]

/-- A reader that has looked at the next tag, the last id aside. -/
structure Looked (r raw : PackRead) (last id : ℕ) : Prop where
  look : pckReadTagLook r = .ok (raw.setIdLast last)
  idLast : r.tagStack.top.idLast = last
  lt : last < id
  id_lt : id < 2 ^ 32
  le : id ≤ raw.tagNextId

section

variable (h : Looked r raw last id)
include h

theorem Looked.asks : Asks r id id :=
  .inr ⟨Nat.ne_of_gt (Nat.zero_lt_of_lt h.lt), rfl, h.idLast ▸ h.lt⟩

/-- The reader with any smaller last id has looked at the tag too. -/
theorem Looked.setIdLast {last' : ℕ} (hlt : last' < id) :
    Looked (raw.setIdLast last') raw last' id := by
  refine ⟨?_, rfl, hlt, h.id_lt, h.le⟩
  have hle := h.le
  exact if_neg (by show raw.tagNextId ≠ 0; omega)

theorem Looked.missing (hlt : id < raw.tagNextId) :
    pckReadNullInternal r id = .ok ((true, id), raw.setIdLast id) := by
  unfold pckReadNullInternal
  rw [pckReadTag_peek id id h.look h.asks h.le, ok_bind]
  exact if_pos hlt

theorem Looked.present (heq : id = raw.tagNextId) :
    pckReadNullInternal r id = .ok ((false, id), raw.setIdLast last) := by
  unfold pckReadNullInternal
  rw [pckReadTag_peek id id h.look h.asks h.le, ok_bind]
  exact if_neg (by show ¬ id < raw.tagNextId; omega)

theorem Looked.tag (heq : id = raw.tagNextId) (typeMap : PackTypeMap) :
    pckReadTag r id (some typeMap)
      = (pckReadTagFound raw (some typeMap)).map (fun this => ((id, this.tagNextValue), this)) := by
  have hrequest : pckReadTagRequest r id = .ok id := by
    have hlt := h.lt
    unfold pckReadTagRequest
    rw [if_neg (by omega), if_neg (by rw [h.idLast]; omega)]
  have hfound : pckReadTagFound (raw.setIdLast last) (some typeMap)
      = pckReadTagFound raw (some typeMap) := rfl
  unfold pckReadTag
  rw [hrequest, ok_bind, pckReadTagLoop, h.look, ok_bind]
  have hnlt : ¬ id < (raw.setIdLast last).tagNextId := by
    show ¬ id < raw.tagNextId
    omega
  rw [if_neg hnlt, if_pos (show id = (raw.setIdLast last).tagNextId from heq), hfound]
  cases pckReadTagFound raw (some typeMap) with
  | error error => rfl
  | ok this => rfl

end

theorem pckReadTag_zero (hlt : r.tagStack.top.idLast + 1 < 2 ^ 32) (typeMap : Option PackTypeMap) :
    pckReadTag r 0 typeMap = pckReadTag r (r.tagStack.top.idLast + 1) typeMap := by
  unfold pckReadTag pckReadTagRequest
  rw [if_pos rfl, if_neg (Nat.succ_ne_zero _), if_neg (by omega), u32_of_lt hlt]

theorem pckReadNullInternal_zero (hlt : r.tagStack.top.idLast + 1 < 2 ^ 32) :
    pckReadNullInternal r 0 = pckReadNullInternal r (r.tagStack.top.idLast + 1) := by
  unfold pckReadNullInternal
  rw [pckReadTag_zero hlt]

section

variable (h : Looked r raw last id)
include h

theorem Looked.zero :
    Looked (raw.setIdLast (id - 1)) raw (id - 1) id ∧
      pckReadNullInternal (raw.setIdLast (id - 1)) 0
        = pckReadNullInternal (raw.setIdLast (id - 1)) id ∧
      ∀ typeMap, pckReadTag (raw.setIdLast (id - 1)) 0 typeMap
        = pckReadTag (raw.setIdLast (id - 1)) id typeMap := by
  have hlt := h.lt
  have hid := h.id_lt
  have hsucc : (raw.setIdLast (id - 1)).tagStack.top.idLast + 1 = id := by
    show id - 1 + 1 = id
    omega
  refine ⟨h.setIdLast (by omega), ?_, fun typeMap => ?_⟩
  · rw [pckReadNullInternal_zero (by rw [hsucc]; exact hid), hsucc]
  · rw [pckReadTag_zero (by rw [hsucc]; exact hid), hsucc]

/-- **A field is read by its id** as it is read by the reader that has counted
the ids before. -/
theorem Looked.field {α : Type} (typeMap : PackTypeMap)
    (value : PackRead → ℕ → Except Error (α × PackRead)) (defaultValue : α) :
    pckReadField typeMap value r id defaultValue
      = pckReadField typeMap value (raw.setIdLast (id - 1)) 0 defaultValue := by
  obtain ⟨hzero, hnull, -⟩ := h.zero
  unfold pckReadField
  rw [hnull]
  by_cases hlt : id < raw.tagNextId
  · rw [h.missing hlt, hzero.missing hlt]
  · have heq : id = raw.tagNextId := le_antisymm h.le (not_lt.mp hlt)
    rw [h.present heq, hzero.present heq, ok_bind, ok_bind]
    dsimp only
    rw [(h.setIdLast h.lt).tag heq, hzero.tag heq]
    rfl

theorem Looked.begin (heq : id = raw.tagNextId) (typeMap : PackTypeMap) :
    pckReadBegin r id typeMap = pckReadBegin (raw.setIdLast (id - 1)) 0 typeMap ∧
      pckReadBegin r id typeMap = pckReadBegin (raw.setIdLast (id - 1)) id typeMap := by
  obtain ⟨hzero, -, htag⟩ := h.zero
  unfold pckReadBegin
  rw [htag, h.tag heq, hzero.tag heq]
  exact ⟨rfl, rfl⟩

/-- **A call with an id** reads what the call with an automatic one reads. -/
theorem Looked.call {call : PckWriteCall} {read : PckReadCall}
    (hcorresponds : Corresponds call read) (hhas : call.hasId = true)
    (hfound : call.emit.hasTag = true → id = raw.tagNextId) :
    pckReadCallId r id read = pckReadCall (raw.setIdLast (id - 1)) read := by
  cases call with
  | null | arrayEnd | objEnd => cases hhas
  | bool | i32 | i64 | mode | u32 | u64 | strId | time | bin | pack | str =>
    cases hcorresponds
    exact congrArg (pckValue _) (h.field _ _ _)
  | strLst value =>
    cases hcorresponds
    refine congrArg (pckValue PckValue.strLst) ?_
    obtain ⟨hzero, hnull, -⟩ := h.zero
    unfold pckReadStrLst
    rw [hnull]
    by_cases hlt : id < raw.tagNextId
    · rw [h.missing hlt, hzero.missing hlt]
    · have heq : id = raw.tagNextId := le_antisymm h.le (not_lt.mp hlt)
      rw [h.present heq, hzero.present heq, ok_bind, ok_bind]
      show (pckReadBegin _ id .array >>= _) = (pckReadBegin _ id .array >>= _)
      rw [((h.setIdLast h.lt).begin heq .array).2]
  | arrayBegin =>
    cases hcorresponds
    show (pckReadBegin r id .array >>= _) = (pckReadBegin _ 0 .array >>= _)
    rw [(h.begin (hfound rfl) .array).1]
  | objBegin =>
    cases hcorresponds
    show (pckReadBegin r id .obj >>= _) = (pckReadBegin _ 0 .obj >>= _)
    rw [(h.begin (hfound rfl) .obj).1]

end

theorem PckWriteCall.nextTag_hasTag {call : PckWriteCall} (hopen : call.open? s.containers = some after)
    (htag : call.emit.hasTag = true) :
    NextTag s (call.emit.bytes s.top.nullTotal ++ out)
      (fun r => r.tagNextId = s.top.idLast + s.top.nullTotal + 1) := by
  rcases open?_cases hopen with ⟨hroom, hemit | ⟨f, hemit⟩ | ⟨value, rfl⟩⟩ |
    ⟨hroom, rfl | rfl⟩ | ⟨-, ⟨rfl, -⟩ | ⟨rfl, -⟩⟩
  · rw [hemit] at htag
    cases htag
  · rw [hemit]
    exact (nextTag_field (call.emit_fits hemit) hroom _).imp (fun _ => AtField.tagNextId)
  · show NextTag s (_ ++ (_ ++ [0]) ++ _) _
    rw [List.append_assoc]
    exact (nextTag_begin (.inl rfl) hroom _).imp (fun _ => AtField.tagNextId)
  · exact (nextTag_begin (.inl rfl) hroom _).imp (fun _ => AtField.tagNextId)
  · exact (nextTag_begin (.inr rfl) hroom _).imp (fun _ => AtField.tagNextId)
  · cases htag
  · cases htag

/-- **One call**: it returns what was written and the reader stays in step. -/
theorem pckReadCallId_ok {call : PckIdCall} (hcorresponds : Corresponds call.write call.read)
    (hopen : call.open? s.containers = some after) (hvalid : s.Valid)
    (hnext : NextTag (call.write.emit.stack (s.request call.id)) out (fun r =>
      (call.write.emit.stack (s.request call.id)).top.idLast
        + (call.write.emit.stack (s.request call.id)).top.nullTotal < r.tagNextId))
    (h : InStep s (call.write.emit.bytes (s.request call.id).top.nullTotal ++ out) r) :
    ∃ r', pckReadCallId r call.id call.read = .ok (writtenValue call.write call.read, r') ∧
      InStep (call.write.emit.stack (s.request call.id)) out r' := by
  obtain ⟨hwrite, hid⟩ := PckIdCall.open?_request hopen
  have hvalid' := hvalid.request hopen
  by_cases hzero : call.id = 0
  · rw [hzero, PackTagStack.request_zero] at hnext h hwrite ⊢
    rw [pckReadCallId_zero]
    exact pckReadCall_ok hcorresponds hwrite hvalid hnext h
  · obtain ⟨hhas, hlast⟩ := hid.resolve_left hzero
    have hsum : (s.request call.id).top.idLast + (s.request call.id).top.nullTotal + 1 = call.id := by
      rw [PackTagStack.request_of_ne hzero]
      dsimp only
      omega
    have hlt : call.id < 2 ^ 32 := hsum ▸ (room_of_hasId hwrite hhas).lt
    -- the next tag is that of the call if it stores one, or is after it
    have hbefore : NextTag s (call.write.emit.bytes (s.request call.id).top.nullTotal ++ out)
        (fun r => call.id ≤ r.tagNextId ∧
          (call.write.emit.hasTag = true → call.id = r.tagNextId)) := by
      refine NextTag.of_request call.id ?_
      cases htag : call.write.emit.hasTag with
      | true =>
        refine (call.write.nextTag_hasTag hwrite htag).imp (fun r hat => ?_)
        rw [hsum] at hat
        exact ⟨hat.ge, fun _ => hat.symm⟩
      | false =>
        refine (call.write.nextTag hvalid' hwrite hnext).imp (fun r hat => ⟨?_, nofun⟩)
        omega
    obtain ⟨raw, hlook, hrlast, ⟨hle, hfound⟩, hstep⟩ :=
      h.request hzero hlast hbefore (fun _ h => h.1)
    have hlooked : Looked r raw (s.top.idLast + s.top.nullTotal) call.id :=
      ⟨hlook, hrlast, hlast, hlt, hle⟩
    rw [hlooked.call hcorresponds hhas hfound]
    exact pckReadCall_ok hcorresponds hwrite hvalid' hnext hstep

theorem emittedId_nextTag (calls : List PckIdCall) (s : PackTagStack) (hvalid : s.Valid)
    (hallowed : IdCallsAllowed s.containers calls) :
    NextTag s (emittedId s calls) (fun r => s.top.idLast + s.top.nullTotal < r.tagNextId) := by
  induction calls generalizing s with
  | nil => exact hvalid.nextTag_end []
  | cons call calls ih =>
    obtain ⟨after, hopen, hcalls⟩ := hallowed
    obtain ⟨hwrite, hid⟩ := PckIdCall.open?_request hopen
    have hvalid' := hvalid.request hopen
    rw [← open?_containers hwrite] at hcalls
    refine NextTag.of_request call.id
      ((call.write.nextTag hvalid' hwrite (ih _ (hvalid'.emit hwrite) hcalls)).imp (fun r h => ?_))
    refine lt_of_le_of_lt ?_ h
    by_cases hzero : call.id = 0
    · rw [hzero, PackTagStack.request_zero]
    · have hlast := (hid.resolve_left hzero).2
      rw [PackTagStack.request_of_ne hzero]
      dsimp only
      omega

/-- **All calls** return what was written, up to the end of the pack. -/
theorem pckReadIdCalls_ok (calls : List PckIdCall)
    (hcorresponds : ∀ call ∈ calls, Corresponds call.write call.read) (s : PackTagStack)
    (r : PackRead) (hvalid : s.Valid) (hallowed : IdCallsAllowed s.containers calls)
    (h : InStep s (emittedId s calls) r) :
    ∃ r', pckReadIdCalls r calls
        = .ok (calls.map (fun call => writtenValue call.write call.read), r') ∧ r'.bytes = [] := by
  induction calls generalizing s r with
  | nil =>
    obtain ⟨r', hread, hbytes⟩ := pckReadEnd_ok h hvalid (List.map_eq_nil_iff.mp hallowed)
    refine ⟨r', ?_, hbytes⟩
    show (pckReadEnd r >>= _) = _
    rw [hread]
    rfl
  | cons call calls ih =>
    obtain ⟨after, hopen, hcalls⟩ := hallowed
    obtain ⟨hwrite, -⟩ := PckIdCall.open?_request hopen
    rw [← open?_containers hwrite] at hcalls
    rw [List.forall_mem_cons] at hcorresponds
    have hvalid' := (hvalid.request hopen).emit hwrite
    obtain ⟨r₁, hread₁, hstep₁⟩ := pckReadCallId_ok hcorresponds.1 hopen hvalid
      (emittedId_nextTag _ _ hvalid' hcalls) h
    obtain ⟨r', hread, hbytes⟩ := ih hcorresponds.2 _ r₁ hvalid' hcalls hstep₁
    refine ⟨r', ?_, hbytes⟩
    show (pckReadCallId r call.id call.read >>= _) = _
    rw [hread₁, ok_bind]
    dsimp only
    rw [hread, ok_bind]
    rfl

/-- **Explicit and automatic ids mix** as long as no tag is stored with an
automatic id while the writer is behind: the calls read what was written. -/
theorem pckReadIdCalls_pckWriteIdCalls (write read : Option ℕ+) (calls : List PckIdCall)
    (hcorresponds : ∀ call ∈ calls, Corresponds call.write call.read)
    (hallowed : IdCallsAllowed ((.obj, 0), []) calls) (hkept : IdsKept ((.obj, 0), []) false calls) :
    ∃ w r, pckWriteIdCalls (pckWriteNew write) calls = .ok w ∧
      pckReadIdCalls (pckReadNew read (pckWriteResult w)) calls
        = .ok (calls.map (fun call => writtenValue call.write call.read), r) ∧ r.bytes = [] := by
  obtain ⟨w, hwrite, hresult⟩ := pckWriteIdCalls_ok calls (pckWriteNew write) .bottom
    (fun _ => rfl) (Behind.refl false .bottom) hallowed hkept
  have hstep : InStep .bottom (emittedId .bottom calls)
      (pckReadNew read (pckWriteResult w)) := inStep_of_before rfl rfl rfl hresult
  have hvalid : PackTagStack.bottom.Valid :=
    ⟨by show 0 + 0 < UINT_MAX - 1; decide, fun item hitem => absurd hitem List.not_mem_nil⟩
  obtain ⟨r, hread, hbytes⟩ := pckReadIdCalls_ok calls hcorresponds .bottom _ hvalid hallowed hstep
  exact ⟨w, r, hwrite, hread, hbytes⟩

end Read

end PgxBackup
