import PgxBackup.PackRoundTrip

/-!
# Reading a pack one call at a time

A function that reads a pack decides what to read next by what it has read.
`Reading calls r` says that the reader is where the calls that are left were
written; each read then returns what the first of them wrote and leaves the
reader before the others.
-/

namespace PgxBackup

/-- **The reader is where the calls were written.** -/
def Reading (calls : List PckWriteCall) (r : PackRead) : Prop :=
  ∃ s : PackTagStack, s.Valid ∧ CallsAllowed s.containers calls ∧ InStep s (emitted [] s calls) r

variable {calls : List PckWriteCall} {call : PckWriteCall} {r : PackRead}

/-- **One call** returns what was written. -/
theorem Reading.one (h : Reading (call :: calls) r) (read : PckReadCall)
    (hcorresponds : Corresponds call read) :
    ∃ r', pckReadCall r read = .ok (writtenValue call read, r') ∧ Reading calls r' := by
  obtain ⟨s, hvalid, ⟨after, hopen, hcalls⟩, hstep⟩ := h
  obtain ⟨-, -, -, hafter⟩ := pckWriteCall_ok call ⟨none, [], [], s⟩ hopen
  rw [← hafter] at hcalls
  have hvalid' := hvalid.emit hopen
  obtain ⟨r', hread, hstep'⟩ := pckReadCall_ok hcorresponds hopen hvalid
    (emitted_nextTag [] _ _ hvalid' hcalls) hstep
  exact ⟨r', hread, call.emit.stack s, hvalid', hcalls, hstep'⟩

theorem pckValue_ok {α : Type} {value : α → PckValue} (hinj : Function.Injective value)
    {result : Except Error (α × PackRead)} {a : α} {r' : PackRead}
    (h : pckValue value result = .ok (value a, r')) : result = .ok (a, r') := by
  cases result with
  | error error => cases h
  | ok result =>
    obtain ⟨hvalue, hr⟩ := ok_inj h
    rw [← hr, ← hinj hvalue]

/-! ### The types -/

theorem Reading.str {value : Option ByteStr} (h : Reading (.str value false none :: calls) r) :
    ∃ r', pckReadStr r 0 none = .ok (value.map ByteStr.bytes, r') ∧ Reading calls r' := by
  obtain ⟨r', hread, hreading⟩ := h.one (.str none) rfl
  exact ⟨r', pckValue_ok (fun _ _ => PckValue.str.inj) hread, hreading⟩

theorem Reading.bin {value : Option Buffer} (h : Reading (.bin value :: calls) r) :
    ∃ r', pckReadBin r 0 = .ok (value.map Buffer.bytes, r') ∧ Reading calls r' := by
  obtain ⟨r', hread, hreading⟩ := h.one .bin rfl
  exact ⟨r', pckValue_ok (fun _ _ => PckValue.bin.inj) hread, hreading⟩

theorem Reading.u32 {value : UInt32} (h : Reading (.u32 value false 0 :: calls) r) :
    ∃ r', pckReadU32 r 0 0 = .ok (value, r') ∧ Reading calls r' := by
  obtain ⟨r', hread, hreading⟩ := h.one (.u32 0) rfl
  exact ⟨r', pckValue_ok (fun _ _ => PckValue.u32.inj) hread, hreading⟩

theorem Reading.u64 {value : UInt64} (h : Reading (.u64 value false 0 :: calls) r) :
    ∃ r', pckReadU64 r 0 0 = .ok (value, r') ∧ Reading calls r' := by
  obtain ⟨r', hread, hreading⟩ := h.one (.u64 0) rfl
  exact ⟨r', pckValue_ok (fun _ _ => PckValue.u64.inj) hread, hreading⟩

theorem Reading.time {value : Int64} (h : Reading (.time value false 0 :: calls) r) :
    ∃ r', pckReadTime r 0 0 = .ok (value, r') ∧ Reading calls r' := by
  obtain ⟨r', hread, hreading⟩ := h.one (.time 0) rfl
  exact ⟨r', pckValue_ok (fun _ _ => PckValue.time.inj) hread, hreading⟩

theorem Reading.mode {value : UInt32} (h : Reading (.mode value false 0 :: calls) r) :
    ∃ r', pckReadMode r 0 0 = .ok (value, r') ∧ Reading calls r' := by
  obtain ⟨r', hread, hreading⟩ := h.one (.mode 0) rfl
  exact ⟨r', pckValue_ok (fun _ _ => PckValue.mode.inj) hread, hreading⟩

theorem Reading.bool {value : Bool} (h : Reading (.bool value false 0 :: calls) r) :
    ∃ r', pckReadBool r 0 0 = .ok (value, r') ∧ Reading calls r' := by
  obtain ⟨r', hread, hreading⟩ := h.one (.bool 0) rfl
  exact ⟨r', pckValue_ok (fun _ _ => PckValue.bool.inj) hread, hreading⟩

theorem Reading.strLst {value : Option StringList} (h : Reading (.strLst value :: calls) r) :
    ∃ r', pckReadStrLst r 0 =
      .ok (value.map (fun list => list.strs.map (fun s => some s.bytes)), r') ∧
      Reading calls r' := by
  obtain ⟨r', hread, hreading⟩ := h.one .strLst rfl
  exact ⟨r', pckValue_ok (fun _ _ => PckValue.strLst.inj) hread, hreading⟩

/-! ### Is there more? -/

/-- **There is a field**: looking for a null leaves the reader where it is. -/
theorem Reading.more {f : PckField} (hemit : call.emit = .field f) (h : Reading (call :: calls) r) :
    ∃ r', pckReadNull r 0 = .ok (false, r') ∧ Reading (call :: calls) r' := by
  obtain ⟨s, hvalid, hallowed, hstep⟩ := h
  obtain ⟨after, hopen, -⟩ := id hallowed
  have hroom : s.Room := by
    rcases open?_cases hopen with ⟨hroom, -⟩ | ⟨hroom, -⟩ | ⟨-, ⟨rfl, -⟩ | ⟨rfl, -⟩⟩
    · exact hroom
    · exact hroom
    · cases hemit
    · cases hemit
  have hnext : NextTag s (emitted [] s (call :: calls))
      (AtField s f (emitted [] (call.emit.stack s) calls)) := by
    have hfield := nextTag_field (call.emit_fits hemit) hroom (emitted [] (call.emit.stack s) calls)
    show NextTag s (call.emit.bytes s.top.nullTotal ++ emitted [] (call.emit.stack s) calls) _
    rwa [show call.emit.bytes s.top.nullTotal = f.bytes s.top.nullTotal by rw [hemit]; rfl]
  obtain ⟨r', -, hread, hstep', -⟩ := hstep.present hroom hnext
  refine ⟨r', ?_, s, hvalid, hallowed, hstep'⟩
  unfold pckReadNull
  rw [hread, ok_bind]

/-- **There is nothing more** where a null was written. -/
theorem Reading.null (h : Reading (.null :: calls) r) :
    ∃ r', pckReadNull r 0 = .ok (true, r') ∧ Reading calls r' := by
  obtain ⟨r', hread, hreading⟩ := h.one .null rfl
  exact ⟨r', pckValue_ok (fun _ _ => PckValue.null.inj) hread, hreading⟩

/-! ### From the writer -/

theorem emitted_append_null (rest : List UInt8) (calls : List PckWriteCall) (s : PackTagStack) :
    emitted rest s (calls ++ [.null]) = emitted rest s calls := by
  induction calls generalizing s with
  | nil => rfl
  | cons call calls ih =>
    rw [List.cons_append]
    unfold emitted
    rw [ih]

/-- **A pack that was written can be read**, also for a null after its last
field. -/
theorem reading_pckWriteCalls (write read : Option ℕ+) (calls : List PckWriteCall)
    (hallowed : CallsAllowed ((.obj, 0), []) calls)
    (hnull : CallsAllowed ((.obj, 0), []) (calls ++ [.null])) :
    ∃ w, pckWriteCalls (pckWriteNew write) calls = .ok w ∧
      pckWriteResult w = emitted [] .bottom calls ∧
      Reading (calls ++ [.null]) (pckReadNew read (pckWriteResult w)) := by
  obtain ⟨w, hwrite, hresult⟩ := pckWriteCalls_ok calls (pckWriteNew write) (fun _ => rfl) hallowed
  refine ⟨w, hwrite, hresult, .bottom, ⟨?_, fun item hitem => absurd hitem List.not_mem_nil⟩, hnull, ?_⟩
  · show 0 + 0 < UINT_MAX - 1
    decide
  · rw [emitted_append_null]
    exact inStep_of_before rfl rfl rfl hresult

/-- Does the call store a field? -/
def PckWriteCall.stores (call : PckWriteCall) : Bool :=
  match call.emit with
  | .field _ => true
  | _ => false

theorem countP_stores_le (rest : List UInt8) (calls : List PckWriteCall) (s : PackTagStack) :
    calls.countP PckWriteCall.stores ≤ (emitted rest s calls).length := by
  induction calls generalizing s with
  | nil => exact Nat.zero_le _
  | cons call calls ih =>
    have hcalls := ih (call.emit.stack s)
    unfold emitted
    rw [List.countP_cons, List.length_append]
    cases hemit : call.emit with
    | field f =>
      have htag : 0 < (f.bytes s.top.nullTotal).length := Nat.succ_pos _
      have hbytes : ((Emit.field f).bytes s.top.nullTotal).length =
          (f.bytes s.top.nullTotal).length := rfl
      rw [hemit] at hcalls
      split <;> omega
    | missing | list | opens | closes =>
      rw [if_neg (by simp [PckWriteCall.stores, hemit])]
      rw [hemit] at hcalls
      omega

/-- Does the call write a field, and not begin or end a container? -/
def PckWriteCall.isField : PckWriteCall → Bool
  | .arrayBegin | .arrayEnd | .objBegin | .objEnd => false
  | .str none true _ => false
  | .str none false (some _) => false
  | _ => true

theorem callsAllowed_fields (hfields : ∀ call ∈ calls, call.isField = true) {typeMap : PackTypeMap}
    {n : ℕ} (hroom : n + calls.length < UINT_MAX - 1) : CallsAllowed ((typeMap, n), []) calls := by
  induction calls generalizing n with
  | nil => rfl
  | cons call calls ih =>
    rw [List.forall_mem_cons] at hfields
    rw [List.length_cons] at hroom
    refine ⟨((typeMap, n + 1), []), ?_, ih hfields.2 (by omega)⟩
    have hfield : PckWriteCall.open?.field ((typeMap, n), []) = some ((typeMap, n + 1), []) :=
      if_pos (by show n + 1 < _; omega)
    have hcall := hfields.1
    cases call with
    | arrayBegin | arrayEnd | objBegin | objEnd => cases hcall
    | str value defaultWrite defaultValue =>
      cases value with
      | some value => exact hfield
      | none =>
        cases defaultWrite with
        | true => cases hcall
        | false =>
          cases defaultValue with
          | none => exact hfield
          | some defaultValue => cases hcall
    | _ => exact hfield

end PgxBackup
