import PgxBackup.PackReader

/-!
# Objects one after the other in a pack

A pack may hold any number of objects, which are read until no tag is left.
`pckReadNext` looks at the next tag without asking for an id, so it may be
called only where no tag is pending: behind the end of a container, or behind
a field that was stored.
-/

namespace PgxBackup

variable {calls : List PckWriteCall} {r r' : PackRead}

/-- `pckReadNext`. -/
def pckReadNext (this : PackRead) : Except Error (Bool × PackRead) := pckReadTagNext this

/-! ## Values with a default -/

theorem Reading.strDefault {value defaultValue : Option ByteStr}
    (h : Reading (.str value false defaultValue :: calls) r) :
    ∃ r', pckReadStr r 0 (defaultValue.map ByteStr.bytes) = .ok (value.map ByteStr.bytes, r') ∧
      Reading calls r' := by
  obtain ⟨r', hread, hreading⟩ := h.one (.str defaultValue) rfl
  exact ⟨r', pckValue_ok (fun _ _ => PckValue.str.inj) hread, hreading⟩

theorem Reading.u32Default {value defaultValue : UInt32}
    (h : Reading (.u32 value false defaultValue :: calls) r) :
    ∃ r', pckReadU32 r 0 defaultValue = .ok (value, r') ∧ Reading calls r' := by
  obtain ⟨r', hread, hreading⟩ := h.one (.u32 defaultValue) rfl
  exact ⟨r', pckValue_ok (fun _ _ => PckValue.u32.inj) hread, hreading⟩

theorem Reading.modeDefault {value defaultValue : UInt32}
    (h : Reading (.mode value false defaultValue :: calls) r) :
    ∃ r', pckReadMode r 0 defaultValue = .ok (value, r') ∧ Reading calls r' := by
  obtain ⟨r', hread, hreading⟩ := h.one (.mode defaultValue) rfl
  exact ⟨r', pckValue_ok (fun _ _ => PckValue.mode.inj) hread, hreading⟩

/-! ## Where no tag is pending -/

theorem pckReadObjEnd_tagNextId (h : pckReadObjEnd r = .ok r') : r'.tagNextId = 0 := by
  obtain ⟨-, -, h⟩ := ok_of_bind h
  obtain ⟨tag, -, h⟩ := ok_of_bind h
  rw [← Except.ok.inj h]

theorem Reading.boolStored {value : Bool} (h : Reading (.bool value true 0 :: calls) r) :
    ∃ r', pckReadBool r 0 0 = .ok (value, r') ∧ Reading calls r' ∧ r'.tagNextId = 0 := by
  obtain ⟨r', hread, hreading⟩ := h.one (.bool 0) rfl
  have hread : pckReadBool r 0 0 = .ok (value, r') :=
    pckValue_ok (fun _ _ => PckValue.bool.inj) hread
  refine ⟨r', hread, hreading, ?_⟩
  obtain ⟨s, -, ⟨after, hopen, -⟩, hstep⟩ := h
  have hroom : s.Room := (open?_field hopen).1
  have hnext := nextTag_field (PckWriteCall.emit_fits (.bool value true 0) rfl) hroom
    (emitted [] ((PckWriteCall.bool value true 0).emit.stack s) calls)
  obtain ⟨r₁, r₂, hnull, -, htag, -, hid, -⟩ := hstep.present hroom hnext
  -- the reader is the one that the tag leaves
  have hsame : pckReadBool r 0 0 = .ok (decide (value.toNat ≠ 0), r₂) := by
    unfold pckReadBool pckReadField
    rw [hnull, ok_bind]
    dsimp only
    rw [if_neg Bool.false_ne_true, htag, ok_bind]
  rw [hread] at hsame
  rw [(ok_inj hsame).2]
  exact hid

/-- A reader without a pending tag is at the bytes that are left. -/
theorem Reading.before (h : Reading calls r) (hid : r.tagNextId = 0) :
    ∃ s : PackTagStack, s.Valid ∧ CallsAllowed s.containers calls ∧
      Before s (emitted [] s calls) r ∧ s.top.nullTotal = 0 := by
  obtain ⟨s, hvalid, hallowed, raw, hbefore, ⟨hnull, rfl⟩ | ⟨found, raw', htag, rfl⟩⟩ := h
  · exact ⟨s, hvalid, hallowed, hbefore, hnull⟩
  · -- a tag that was read is pending
    obtain ⟨found', raw'', htag', -, hlt⟩ := emitted_nextTag [] calls s hvalid hallowed raw hbefore
    rw [htag] at htag'
    rw [← (ok_inj htag').2] at hlt
    have hid : raw'.tagNextId = 0 := hid
    omega

/-- **There is another object.** -/
theorem Reading.next (h : Reading (.objBegin :: calls) r) (hid : r.tagNextId = 0) :
    ∃ r', pckReadNext r = .ok (true, r') ∧ Reading (.objBegin :: calls) r' := by
  obtain ⟨s, hvalid, hallowed, hbefore, hnull⟩ := h.before hid
  obtain ⟨after, hopen, -⟩ := id hallowed
  have hroom : s.Room := (open?_begin hopen).1
  obtain ⟨found, r', hread, hstack, -⟩ := nextTag_begin (.inr rfl : PackTypeMap.obj = .array ∨ _) hroom
    (emitted [] (pckTagStackPush s.next .obj) calls) r hbefore
  have hfound : found = true := by
    have hlast : r.tagStack.top.idLast = s.top.idLast := by
      rw [hbefore.tagStack]
      rfl
    have hlt := hroom.lt
    have hfield := @pckReadTagNext_field .obj 0 r s.top.nullTotal 0 (containers_fits (.inr rfl))
      (by omega) (by decide) (fun _ => rfl) (emitted [] (pckTagStackPush s.next .obj) calls)
    have hbytes : r.bytes = tagBytes .obj s.top.nullTotal 0 ++
        (varIntIf (sizeFollows .obj 0) 0 ++ emitted [] (pckTagStackPush s.next .obj) calls) :=
      hbefore.bytes
    rw [← hbytes, hread] at hfield
    exact (ok_inj hfield).1
  refine ⟨r', by rw [← hfound]; exact hread, s, hvalid, hallowed, r, hbefore, .inr ⟨found, r', hread, ?_⟩⟩
  have hsame : r'.setIdLast (s.top.idLast + s.top.nullTotal) = { r' with tagStack := s.clear } := by
    unfold PackRead.setIdLast
    rw [hstack, hbefore.tagStack, hnull]
    rfl
  rw [hsame, ← hbefore.tagStack, ← hstack]

/-- **There is no other object** at the end of the pack. -/
theorem Reading.next_nil (h : Reading [] r) (hid : r.tagNextId = 0) :
    ∃ r', pckReadNext r = .ok (false, r') := by
  obtain ⟨s, -, -, hbefore, -⟩ := h.before hid
  have hbytes : r.bytes = 0 :: [] := hbefore.bytes
  have hread := pckReadTagNext_end r []
  rw [← hbytes] at hread
  exact ⟨_, hread⟩

/-! ## Sequences that are allowed -/

theorem callsAllowed_append {fields : List PckWriteCall} {typeMap : PackTypeMap} {n : ℕ}
    {below : List (PackTypeMap × ℕ)} (hfields : ∀ call ∈ fields, call.isField = true)
    (hroom : n + fields.length < UINT_MAX - 1)
    (hcalls : CallsAllowed ((typeMap, n + fields.length), below) calls) :
    CallsAllowed ((typeMap, n), below) (fields ++ calls) := by
  induction fields generalizing n with
  | nil => exact hcalls
  | cons call fields ih =>
    rw [List.forall_mem_cons] at hfields
    rw [List.length_cons] at hroom hcalls
    have hone : PckWriteCall.open?.field ((typeMap, n), below) = some ((typeMap, n + 1), below) :=
      if_pos (by show n + 1 < _; omega)
    refine ⟨((typeMap, n + 1), below), ?_, ih hfields.2 (by omega) ?_⟩
    · have hcall := hfields.1
      cases call with
      | arrayBegin | arrayEnd | objBegin | objEnd => cases hcall
      | str value defaultWrite defaultValue =>
        cases value with
        | some value => exact hone
        | none =>
          cases defaultWrite with
          | true => cases hcall
          | false =>
            cases defaultValue with
            | none => exact hone
            | some defaultValue => cases hcall
      | _ => exact hone
    · rwa [Nat.add_right_comm, Nat.add_assoc]

/-- An object of fields is allowed where there is room for one more field. -/
theorem callsAllowed_obj {fields : List PckWriteCall} {typeMap : PackTypeMap} {n : ℕ}
    {below : List (PackTypeMap × ℕ)} (hfields : ∀ call ∈ fields, call.isField = true)
    (hlength : fields.length < UINT_MAX - 1) (hroom : n + 1 < UINT_MAX - 1)
    (hcalls : CallsAllowed ((typeMap, n + 1), below) calls) :
    CallsAllowed ((typeMap, n), below) (.objBegin :: (fields ++ .objEnd :: calls)) := by
  refine ⟨((.obj, 0), (typeMap, n + 1) :: below), ?_, ?_⟩
  · show (PckWriteCall.open?.field _ >>= _) = _
    rw [show PckWriteCall.open?.field ((typeMap, n), below) = some ((typeMap, n + 1), below) from
      if_pos hroom]
    rfl
  · refine callsAllowed_append hfields (by rwa [Nat.zero_add]) ⟨((typeMap, n + 1), below), ?_, hcalls⟩
    rfl

/-! ## From the writer -/

/-- All fields are written one after the other, and then the end. -/
theorem pckWriteCalls_eq (calls : List PckWriteCall) (w : PackWrite) :
    pckWriteCalls w calls = calls.foldlM pckWriteCall w >>= pckWriteEnd := by
  induction calls generalizing w with
  | nil => rfl
  | cons call calls ih =>
    unfold pckWriteCalls
    rw [List.foldlM_cons, bind_assoc]
    simp only [ih]

/-- A new reader is where the calls were written. -/
theorem reading_emitted (read : Option ℕ+) (hallowed : CallsAllowed ((.obj, 0), []) calls) :
    Reading calls (pckReadNew read (emitted [] .bottom calls)) := by
  refine ⟨.bottom, ⟨?_, fun item hitem => absurd hitem List.not_mem_nil⟩, hallowed, ?_⟩
  · show 0 + 0 < UINT_MAX - 1
    decide
  · exact inStep_of_before rfl rfl rfl rfl

/-- **What the calls wrote is read where they were written.** -/
theorem foldlM_pckWriteCall (calls : List PckWriteCall) (hallowed : CallsAllowed ((.obj, 0), []) calls) :
    ∃ w w', calls.foldlM pckWriteCall (pckWriteNew none) = .ok w ∧ pckWriteEnd w = .ok w' ∧
      pckWriteResult w' = emitted [] .bottom calls := by
  obtain ⟨w', hwrite, hresult⟩ := pckWriteCalls_ok calls (pckWriteNew none) (fun _ => rfl) hallowed
  rw [pckWriteCalls_eq] at hwrite
  obtain ⟨w, hcalls, hend⟩ := ok_of_bind hwrite
  exact ⟨w, w', hcalls, hend, hresult⟩

def PckWriteCall.isObjBegin : PckWriteCall → Bool
  | .objBegin => true
  | _ => false

theorem countP_objBegin_le (rest : List UInt8) (calls : List PckWriteCall) (s : PackTagStack) :
    calls.countP PckWriteCall.isObjBegin ≤ (emitted rest s calls).length := by
  induction calls generalizing s with
  | nil => exact Nat.zero_le _
  | cons call calls ih =>
    have hcalls := ih (call.emit.stack s)
    unfold emitted
    rw [List.countP_cons, List.length_append]
    cases call with
    | objBegin =>
      have htag : 0 < (PckWriteCall.objBegin.emit.bytes s.top.nullTotal).length := Nat.succ_pos _
      split <;> omega
    | _ =>
      rw [if_neg (by simp [PckWriteCall.isObjBegin])]
      omega

end PgxBackup
