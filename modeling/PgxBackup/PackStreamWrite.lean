import PgxBackup.PackId

/-!
# A pack that is written to a stream

The writer keeps small fragments in its buffer and sends the buffer, or a
fragment that does not fit it, to the stream. At any time what was sent and
what is in the buffer are together the buffer of a writer in memory.
-/

namespace PgxBackup

/-- Write fields, each with an id or zero for an automatic one, and end the
pack. -/
def pckWriteRun (this : PackWrite) : List (ℕ × PckWriteCall) → Except Error PackWrite
  | [] => pckWriteEnd this
  | (id, call) :: calls => do
    let this ← pckWriteCallId this id call
    pckWriteRun this calls

/-- **A writer to a stream is at the same place** as a writer in memory. -/
structure SameWrite (m s : PackWrite) : Prop where
  memory : m.write = none
  stream : s.write ≠ none
  bytes : s.sent ++ s.buffer = m.buffer
  tagStack : s.tagStack = m.tagStack

/-- Both writers fail with the same error, or are at the same place. -/
def WritesSame (memory stream : Except Error PackWrite) : Prop :=
  match memory, stream with
  | .ok memory, .ok stream => SameWrite memory stream
  | .error error, .error error' => error = error'
  | _, _ => False

section Write

variable {m s : PackWrite} {f g : PackWrite → Except Error PackWrite}
  {x y : Except Error PackWrite}

theorem WritesSame.bind (h : WritesSame x y) (hnext : ∀ m s, SameWrite m s → WritesSame (f m) (g s)) :
    WritesSame (x >>= f) (y >>= g) := by
  cases x with
  | error error =>
    cases y with
    | error error' => exact h
    | ok s => exact h.elim
  | ok m =>
    cases y with
    | error error' => exact h.elim
    | ok s => exact hnext m s h

theorem writesSame_bind {α : Type} (x : Except Error α) {f g : α → Except Error PackWrite}
    (h : ∀ a, WritesSame (f a) (g a)) : WritesSame (x >>= f) (x >>= g) := by
  cases x with
  | error error => exact rfl
  | ok a => exact h a

section

variable (h : SameWrite m s)
include h

theorem SameWrite.withTagStack (tagStack : PackTagStack) :
    SameWrite { m with tagStack := tagStack } { s with tagStack := tagStack } :=
  ⟨h.memory, h.stream, h.bytes, rfl⟩

/-- **A fragment** that fits the buffer, fits the empty buffer or is sent. -/
theorem SameWrite.buffer (bytes : List UInt8) :
    SameWrite (pckWriteBuffer m bytes) (pckWriteBuffer s bytes) := by
  have hmemory : pckWriteBuffer m bytes = { m with buffer := m.buffer ++ bytes } := by
    unfold pckWriteBuffer
    rw [h.memory]
  rw [hmemory]
  unfold pckWriteBuffer
  cases hstream : s.write with
  | none => exact absurd hstream h.stream
  | some bufferSize =>
    dsimp only
    split
    · refine ⟨h.memory, nofun, ?_, h.tagStack⟩
      show s.sent ++ (s.buffer ++ bytes) = m.buffer ++ bytes
      rw [← List.append_assoc, h.bytes]
    · split
      · refine ⟨h.memory, nofun, ?_, h.tagStack⟩
        show s.sent ++ s.buffer ++ bytes = m.buffer ++ bytes
        rw [h.bytes]
      · refine ⟨h.memory, nofun, ?_, h.tagStack⟩
        show s.sent ++ s.buffer ++ bytes ++ [] = m.buffer ++ bytes
        rw [List.append_nil, h.bytes]

theorem SameWrite.u64Internal (value : ℕ) :
    WritesSame (pckWriteU64Internal m value) (pckWriteU64Internal s value) :=
  writesSame_bind _ (fun bytes => h.buffer bytes)

theorem SameWrite.u64If (condition : Bool) (value : ℕ) :
    WritesSame (pckWriteU64If m condition value) (pckWriteU64If s condition value) := by
  unfold pckWriteU64If
  split
  · exact h.u64Internal value
  · exact h

theorem SameWrite.tag (typeMap : PackTypeMap) (id value : ℕ) :
    WritesSame (pckWriteTag m typeMap id value) (pckWriteTag s typeMap id value) := by
  unfold pckWriteTag
  rw [h.tagStack]
  refine writesSame_bind _ (fun id => writesSame_bind _ (fun _ => ?_))
  refine ((h.buffer _).u64If _ _).bind (fun m₁ s₁ h₁ => ?_)
  refine (h₁.u64If _ _).bind (fun m₂ s₂ h₂ => (h₂.u64If _ _).bind (fun m₃ s₃ h₃ => ?_))
  show SameWrite { m₃ with tagStack := _ } { s₃ with tagStack := _ }
  rw [h₃.tagStack]
  exact h₃.withTagStack _

theorem SameWrite.null : SameWrite (pckWriteNull m) (pckWriteNull s) := by
  unfold pckWriteNull
  rw [h.tagStack]
  exact h.withTagStack _

theorem SameWrite.field (defaultWrite defaultEqual : Bool) (hfield : WritesSame (f m) (f s)) :
    WritesSame (pckWriteField m defaultWrite defaultEqual f)
      (pckWriteField s defaultWrite defaultEqual f) := by
  unfold pckWriteField
  split
  · exact h.null
  · exact hfield

theorem SameWrite.number (defaultWrite defaultEqual : Bool) (typeMap : PackTypeMap) (id value : ℕ) :
    WritesSame
      (pckWriteField m defaultWrite defaultEqual (fun this => pckWriteTag this typeMap id value))
      (pckWriteField s defaultWrite defaultEqual (fun this => pckWriteTag this typeMap id value)) :=
  h.field (f := fun this => pckWriteTag this typeMap id value) _ _ (h.tag _ _ _)

theorem SameWrite.buf (bytes : List UInt8) :
    WritesSame (pckWriteBuf m bytes) (pckWriteBuf s bytes) :=
  (h.u64Internal _).bind (fun _ _ h => h.buffer bytes)

theorem SameWrite.data (typeMap : PackTypeMap) (id : ℕ) (bytes : List UInt8) :
    WritesSame (pckWriteData m typeMap id bytes) (pckWriteData s typeMap id bytes) := by
  refine (h.tag _ _ _).bind (fun m₁ s₁ h₁ => ?_)
  split
  · exact h₁.buf bytes
  · exact h₁

theorem SameWrite.containerEnd (typeMap : PackTypeMap) :
    WritesSame (pckWriteContainerEnd m typeMap) (pckWriteContainerEnd s typeMap) := by
  unfold pckWriteContainerEnd
  rw [h.tagStack]
  refine writesSame_bind _ (fun _ => (h.u64Internal 0).bind (fun m₁ s₁ h₁ => ?_))
  show SameWrite { m₁ with tagStack := _ } { s₁ with tagStack := _ }
  rw [h₁.tagStack]
  exact h₁.withTagStack _

theorem SameWrite.begin (id : ℕ) (typeMap : PackTypeMap) :
    WritesSame (pckWriteBegin m id typeMap) (pckWriteBegin s id typeMap) := by
  refine (h.tag _ _ _).bind (fun m₁ s₁ h₁ => ?_)
  show SameWrite { m₁ with tagStack := _ } { s₁ with tagStack := _ }
  rw [h₁.tagStack]
  exact h₁.withTagStack _

theorem SameWrite.str (value : Option ByteStr) (id : ℕ) (defaultWrite : Bool)
    (defaultValue : Option ByteStr) :
    WritesSame (pckWriteStr m value id defaultWrite defaultValue)
      (pckWriteStr s value id defaultWrite defaultValue) := by
  refine h.field _ _ ?_
  cases value with
  | none => exact rfl
  | some value => exact h.data _ _ _

end

theorem SameWrite.strs (values : List ByteStr) (h : SameWrite m s) :
    WritesSame (pckWriteStrs m values) (pckWriteStrs s values) := by
  induction values generalizing m s with
  | nil => exact h
  | cons value values ih => exact (h.str _ _ _ _).bind (fun _ _ h => ih h)

/-- **One call.** -/
theorem SameWrite.call (h : SameWrite m s) (id : ℕ) (call : PckWriteCall) :
    WritesSame (pckWriteCallId m id call) (pckWriteCallId s id call) := by
  cases call with
  | null => exact h.null
  | bool | i32 | i64 | mode | u32 | u64 | strId | time => exact h.number _ _ _ _ _
  | str value defaultWrite defaultValue => exact h.str _ _ _ _
  | bin value =>
    show WritesSame (pckWriteBin m value id) (pckWriteBin s value id)
    refine h.field _ _ ?_
    cases value with
    | none => exact rfl
    | some value => exact h.data _ _ _
  | pack value =>
    show WritesSame (pckWritePack m value id) (pckWritePack s value id)
    refine h.field _ _ ?_
    cases value with
    | none => exact rfl
    | some value => exact (h.tag _ _ _).bind (fun _ _ h => h.buf _)
  | strLst value =>
    show WritesSame (pckWriteStrLst m value id) (pckWriteStrLst s value id)
    refine h.field _ _ ?_
    cases value with
    | none => exact rfl
    | some value =>
      exact (h.begin _ _).bind (fun _ _ h => (h.strs _).bind (fun _ _ h => h.containerEnd _))
  | arrayBegin | objBegin => exact h.begin _ _
  | arrayEnd | objEnd => exact h.containerEnd _

/-- Both writers fail with the same error, or have written the same pack. -/
def PacksSame (memory stream : Except Error PackWrite) : Prop :=
  memory.map pckWriteResult = stream.map pckWriteResult

theorem SameWrite.end (h : SameWrite m s) : PacksSame (pckWriteEnd m) (pckWriteEnd s) := by
  unfold PacksSame pckWriteEnd
  rw [h.tagStack]
  cases ASSERT (decide (m.tagStack.below = [])) "this->tagStack.depth == 0" with
  | error error => rfl
  | ok _ =>
    have hzero := h.u64Internal 0
    rw [ok_bind, ok_bind]
    cases hm : pckWriteU64Internal m 0 with
    | error error =>
      cases hs : pckWriteU64Internal s 0 with
      | error error' =>
        rw [hm, hs] at hzero
        exact congrArg Except.error hzero
      | ok s₁ =>
        rw [hm, hs] at hzero
        exact hzero.elim
    | ok m₁ =>
      cases hs : pckWriteU64Internal s 0 with
      | error error' =>
        rw [hm, hs] at hzero
        exact hzero.elim
      | ok s₁ =>
        rw [hm, hs] at hzero
        rw [ok_bind, ok_bind]
        obtain ⟨bufferSize, hstream⟩ := Option.ne_none_iff_exists'.mp hzero.stream
        rw [hzero.memory, hstream]
        show Except.ok (pckWriteResult m₁) = Except.ok (pckWriteResult _)
        unfold pckWriteResult
        rw [hzero.memory]
        exact congrArg Except.ok hzero.bytes.symm

/-- **Writing to a stream or in memory makes the same pack.** -/
theorem pckWriteRun_same (calls : List (ℕ × PckWriteCall)) (h : SameWrite m s) :
    PacksSame (pckWriteRun m calls) (pckWriteRun s calls) := by
  induction calls generalizing m s with
  | nil => exact h.end
  | cons call calls ih =>
    obtain ⟨id, call⟩ := call
    have hcall := h.call id call
    unfold pckWriteRun
    cases hm : pckWriteCallId m id call with
    | error error =>
      cases hs : pckWriteCallId s id call with
      | error error' =>
        rw [hm, hs] at hcall
        exact congrArg Except.error hcall
      | ok s₁ =>
        rw [hm, hs] at hcall
        exact hcall.elim
    | ok m₁ =>
      cases hs : pckWriteCallId s id call with
      | error error' =>
        rw [hm, hs] at hcall
        exact hcall.elim
      | ok s₁ =>
        rw [hm, hs] at hcall
        exact ih hcall

theorem pckWriteNew_same (bufferSize : ℕ+) :
    SameWrite (pckWriteNew none) (pckWriteNew (some bufferSize)) :=
  ⟨rfl, nofun, rfl, rfl⟩

end Write

end PgxBackup
