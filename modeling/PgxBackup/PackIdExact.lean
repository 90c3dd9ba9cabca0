import PgxBackup.PackId
import PgxBackup.PackSkip

/-!
# When explicit and automatic ids mix

Every field that is stored must be found by its read call, or its default
would be returned. So the reader may not skip a single tag, and each read call
finds the tag of its write call. It asks for an id after all ids that were
used, while the writer counts from the last id that it stored. Without
containers the ids of the two are therefore the same only if the writer is
never behind when it stores an automatic id.
-/

namespace PgxBackup

open List

/-! ## Fields without containers -/

/-- A call for a field that is no container, whose value would not be returned if
it was stored but missing. -/
structure PckIdCall.Flat (call : PckIdCall) : Prop where
  emit : call.write.emit = .missing ∨ ∃ f, call.write.emit = .field f
  read : call.read ≠ .strLst
  value : call.write.emit.hasTag = true → writtenValue call.write call.read ≠ call.read.missing

/-- The id that a call uses after the last one. -/
def usedId (last id : ℕ) : ℕ := if id = 0 then last + 1 else id

/-- The tag that a call for a field stores, after a number of nulls. -/
def PckIdCall.tag (t : PackTagStack) (call : PckIdCall) : List (ℕ × PckField) :=
  match call.write.emit with
  | .field f => [((t.request call.id).top.nullTotal, f)]
  | _ => []

/-- What the writer has counted after a call for a field. -/
def PckIdCall.stack (t : PackTagStack) (call : PckIdCall) : PackTagStack :=
  match call.write.emit with
  | .field _ => (t.request call.id).next
  | _ => t.null

/-- The tags that the writer stores for fields. -/
def tagsId : PackTagStack → List PckIdCall → List (ℕ × PckField)
  | _, [] => []
  | t, call :: calls => call.tag t ++ tagsId (call.stack t) calls

def writtenValues (calls : List PckIdCall) : List PckValue :=
  calls.map (fun call => writtenValue call.write call.read)

/-- The values that were written are read back. -/
def ReadsBack (write read : Option ℕ+) (calls : List PckIdCall) : Prop :=
  ∃ w r, pckWriteIdCalls (pckWriteNew write) calls = .ok w ∧
    pckReadIdCalls (pckReadNew read (pckWriteResult w)) calls
      = .ok (writtenValues calls, r)

/-- The ids that the writer has counted. -/
def PackTagStack.counted (t : PackTagStack) : ℕ := t.top.idLast + t.top.nullTotal

section Write

variable {t : PackTagStack} {w : PackWrite} {containers after : OpenContainers} {call : PckIdCall}

theorem open?_of_flat {write : PckWriteCall} (h : write.open? containers = some after)
    (hemit : write.emit = .missing ∨ ∃ f, write.emit = .field f) :
    ∀ containers', write.open? containers' = PckWriteCall.open?.field containers' := by
  have hnot : ∀ {e : Emit}, write.emit = e → e.hasTag = true ∧ (∀ f, e ≠ .field f) ∨
      (∃ typeMap, e = .closes typeMap) → False := by
    intro e he h
    cases hemit with
    | inl hmissing =>
      rw [hmissing] at he
      subst he
      rcases h with ⟨h, -⟩ | ⟨typeMap, h⟩
      · cases h
      · cases h
    | inr hfield =>
      obtain ⟨f, hf⟩ := hfield
      rw [hf] at he
      subst he
      rcases h with ⟨-, h⟩ | ⟨typeMap, h⟩
      · exact h f rfl
      · cases h
  cases write with
  | null | bool | i32 | i64 | mode | u32 | u64 | strId | time | bin | pack | strLst =>
    exact fun _ => rfl
  | str value defaultWrite defaultValue =>
    cases value with
    | none =>
      cases defaultWrite with
      | true => exact absurd h (by simp [PckWriteCall.open?])
      | false =>
        cases defaultValue with
        | none => exact fun _ => rfl
        | some defaultValue => exact absurd h (by simp [PckWriteCall.open?])
    | some value => exact fun _ => rfl
  | arrayBegin | objBegin => exact (hnot rfl (.inl ⟨rfl, by rintro _ ⟨⟩⟩)).elim
  | arrayEnd | objEnd => exact (hnot rfl (.inr ⟨_, rfl⟩)).elim

/-- **A field uses its id**, which is larger than the last one. -/
theorem PckIdCall.Flat.open? (hflat : call.Flat) (h : call.open? containers = some after) :
    after = ((containers.1.1, usedId containers.1.2 call.id), containers.2) ∧
      containers.1.2 < usedId containers.1.2 call.id ∧
      usedId containers.1.2 call.id < UINT_MAX - 1 ∧
      ∀ containers', call.write.open? containers' = PckWriteCall.open?.field containers' := by
  unfold PckIdCall.open? at h
  split at h
  · rename_i hid
    have hall := open?_of_flat h hflat.emit
    rw [hall] at h
    unfold PckWriteCall.open?.field upToId at h
    unfold usedId
    by_cases hzero : call.id = 0
    · rw [if_pos hzero] at h ⊢
      split at h
      · rename_i hroom
        exact ⟨(Option.some.inj h).symm, Nat.lt_succ_self _, hroom, hall⟩
      · cases h
    · have hlt := (hid.resolve_left hzero).2
      have hsucc : call.id - 1 + 1 = call.id := by omega
      rw [if_neg hzero] at h ⊢
      rw [hsucc] at h
      split at h
      · rename_i hroom
        exact ⟨(Option.some.inj h).symm, hlt, hroom, hall⟩
      · cases h
  · cases h

theorem request_idLast (t : PackTagStack) (id : ℕ) :
    (t.request id).top.idLast = t.top.idLast ∧ (t.request id).below = t.below := by
  unfold PackTagStack.request
  split
  · exact ⟨rfl, rfl⟩
  · exact ⟨rfl, rfl⟩

/-- The nulls before a tag lead to its id. -/
theorem counted_request {last id : ℕ} (hle : t.counted ≤ last) (hlt : last < usedId last id) :
    (t.request id).counted + 1 = if id = 0 then t.counted + 1 else id := by
  unfold PackTagStack.request
  unfold usedId at hlt
  by_cases hzero : id = 0
  · rw [if_pos hzero, if_pos hzero]
  · rw [if_neg hzero] at hlt ⊢
    rw [if_neg hzero]
    unfold PackTagStack.counted at hle ⊢
    dsimp only
    omega

theorem counted_stack {last : ℕ} (hle : t.counted ≤ last) (hlt : last < usedId last call.id) :
    (call.stack t).counted ≤ usedId last call.id := by
  have hrequest := counted_request hle hlt
  unfold PckIdCall.stack
  cases call.write.emit with
  | field f =>
    show (t.request call.id).top.idLast + (t.request call.id).top.nullTotal + 1 + 0 ≤ _
    have hrequest : (t.request call.id).top.idLast + (t.request call.id).top.nullTotal + 1 = _ := hrequest
    rw [hrequest]
    unfold usedId
    split
    · omega
    · exact le_rfl
  | missing | list | opens | closes =>
    show t.top.idLast + (t.top.nullTotal + 1) ≤ _
    unfold PackTagStack.counted at hle
    omega

theorem idLast_stack (t : PackTagStack) (call : PckIdCall) :
    (call.stack t).top.idLast = t.top.idLast + idsOf (call.tag t) ∧ (call.stack t).below = t.below := by
  unfold PckIdCall.stack PckIdCall.tag idsOf
  cases call.write.emit with
  | field f =>
    obtain ⟨hlast, hbelow⟩ := request_idLast t call.id
    refine ⟨?_, hbelow⟩
    show (t.request call.id).top.idLast + (t.request call.id).top.nullTotal + 1 = _
    rw [hlast]
    simp only [map_cons, map_nil, sum_cons, sum_nil]
    omega
  | missing | list | opens | closes => exact ⟨rfl, rfl⟩

theorem idsOf_append (first second : List (ℕ × PckField)) :
    idsOf (first ++ second) = idsOf first + idsOf second := by
  unfold idsOf
  rw [map_append, sum_append]

/-- **The writer does not need more ids** than are used. -/
theorem idsOf_tagsId (calls : List PckIdCall) (t : PackTagStack) (containers : OpenContainers)
    (hflat : ∀ call ∈ calls, call.Flat) (hallowed : IdCallsAllowed containers calls)
    (hle : t.counted ≤ containers.1.2) (hlt : containers.1.2 < UINT_MAX - 1) :
    t.top.idLast + idsOf (tagsId t calls) < UINT_MAX - 1 := by
  induction calls generalizing t containers with
  | nil =>
    have hle : t.top.idLast + t.top.nullTotal ≤ containers.1.2 := hle
    show t.top.idLast + 0 < _
    omega
  | cons call calls ih =>
    rw [forall_mem_cons] at hflat
    obtain ⟨after, hopen, hcalls⟩ := hallowed
    obtain ⟨rfl, hused, hmax, -⟩ := hflat.1.open? hopen
    have hrest := ih _ _ hflat.2 hcalls (counted_stack hle hused) hmax
    rw [(idLast_stack t call).1] at hrest
    show t.top.idLast + idsOf (call.tag t ++ tagsId (call.stack t) calls) < _
    rw [idsOf_append, ← Nat.add_assoc]
    exact hrest

/-- **One call for a field** stores its tag. -/
theorem pckWriteCallId_flat (hflat : call.Flat) (hopen : call.open? containers = some after)
    (hle : w.tagStack.counted ≤ containers.1.2) :
    ∃ w', pckWriteCallId w call.id call.write = .ok w' ∧
      Wrote w (tagsBytes (call.tag w.tagStack)) (call.stack w.tagStack) w' ∧
      ∀ field ∈ call.tag w.tagStack, FieldFits field := by
  obtain ⟨-, hused, hmax, hall⟩ := hflat.open? hopen
  have hrequest := counted_request hle hused
  have hroom : (w.tagStack.request call.id).Room := by
    show (w.tagStack.request call.id).counted + 1 < _
    rw [hrequest]
    unfold usedId at hused hmax
    split
    · rename_i hzero
      rw [if_pos hzero] at hmax
      omega
    · rename_i hzero
      rw [if_neg hzero] at hmax
      exact hmax
  have hwrite : call.write.open? (w.tagStack.request call.id).containers
      = some (((w.tagStack.request call.id).top.typeMap,
          (w.tagStack.request call.id).counted + 1),
        (w.tagStack.request call.id).containers.2) := by
    rw [hall]
    exact if_pos hroom
  unfold PckIdCall.tag PckIdCall.stack
  cases hemit : call.write.emit with
  | missing =>
    have hnull : w.tagStack.Room := by
      show w.tagStack.counted + 1 < _
      omega
    refine ⟨pckWriteNull w, pckWriteCallId_missing hwrite hemit _, wrote_pckWriteNull hnull, ?_⟩
    exact fun field h => absurd h not_mem_nil
  | field f =>
    have hcall : pckWriteCallId w call.id call.write
        = pckWriteCall (w.withStack (w.tagStack.request call.id)) call.write := by
      by_cases hzero : call.id = 0
      · rw [hzero, pckWriteCallId_zero, PackTagStack.request_zero]
        rfl
      · have hlast : w.tagStack.top.idLast < call.id := by
          unfold usedId at hused
          rw [if_neg hzero] at hused
          unfold PackTagStack.counted at hle
          omega
        have hlt := hroom.lt
        have hid : (w.tagStack.request call.id).counted + 1 = call.id := by
          rw [hrequest, if_neg hzero]
        unfold PackTagStack.counted at hid
        exact pckWriteCallId_request (by rw [hemit]; rfl) hzero hlast (by omega)
    obtain ⟨w', hok, hwrote, -⟩ :=
      pckWriteCall_ok call.write (w.withStack (w.tagStack.request call.id)) hwrite
    refine ⟨w', hcall.trans hok, ⟨hwrote.write, ?_, ?_, hwrote.sent⟩, ?_⟩
    · rw [hwrote.output, hemit]
      unfold tagsBytes
      rw [flatMap_singleton]
      rfl
    · rw [hwrote.tagStack, hemit]
      rfl
    · rw [forall_mem_singleton]
      exact fieldFits_of_room hroom (call.write.emit_fits hemit)
  | list | opens | closes =>
    cases hflat.emit with
    | inl h => rw [hemit] at h; cases h
    | inr h => obtain ⟨f, h⟩ := h; rw [hemit] at h; cases h

/-- **The pack holds the tags** of all fields and its end. -/
theorem pckWriteIdCalls_flat (calls : List PckIdCall) (w : PackWrite) (containers : OpenContainers)
    (hsent : w.write = none → w.sent = []) (hbelow : w.tagStack.below = [])
    (hflat : ∀ call ∈ calls, call.Flat) (hallowed : IdCallsAllowed containers calls)
    (hle : w.tagStack.counted ≤ containers.1.2) :
    ∃ w', pckWriteIdCalls w calls = .ok w' ∧
      pckWriteResult w' = w.output ++ (tagsBytes (tagsId w.tagStack calls) ++ [0]) ∧
      ∀ field ∈ tagsId w.tagStack calls, FieldFits field := by
  induction calls generalizing w containers with
  | nil =>
    obtain ⟨w', hok, hresult⟩ := pckWriteEnd_ok w hbelow hsent
    exact ⟨w', hok, hresult, fun field h => absurd h not_mem_nil⟩
  | cons call calls ih =>
    rw [forall_mem_cons] at hflat
    obtain ⟨after, hopen, hcalls⟩ := hallowed
    obtain ⟨w₁, hok₁, hw₁, hfits₁⟩ := pckWriteCallId_flat hflat.1 hopen hle
    obtain ⟨rfl, hused, -, -⟩ := hflat.1.open? hopen
    have hsent₁ : w₁.write = none → w₁.sent = [] := fun hnone => by
      have hnone := hw₁.write.symm.trans hnone
      rw [hw₁.sent hnone, hsent hnone]
    have hbelow₁ : w₁.tagStack.below = [] := by
      rw [hw₁.tagStack, (idLast_stack _ call).2, hbelow]
    have hle₁ : w₁.tagStack.counted ≤ usedId containers.1.2 call.id := by
      rw [hw₁.tagStack]
      exact counted_stack hle hused
    obtain ⟨w', hok, hresult, hfits⟩ := ih w₁ _ hsent₁ hbelow₁ hflat.2 hcalls hle₁
    rw [hw₁.tagStack] at hresult hfits
    refine ⟨w', ?_, ?_, ?_⟩
    · unfold pckWriteIdCalls
      rw [hok₁, ok_bind]
      exact hok
    · have happend : tagsBytes (tagsId w.tagStack (call :: calls))
          = tagsBytes (call.tag w.tagStack) ++ tagsBytes (tagsId (call.stack w.tagStack) calls) :=
        flatMap_append
      rw [hresult, hw₁.output, happend]
      simp only [append_assoc]
    · intro field hfield
      cases mem_append.mp hfield with
      | inl h => exact hfits₁ field h
      | inr h => exact hfits field h

end Write

/-! ## The reader -/

section Read

variable {r next : PackRead} {base request id : ℕ} {fields : List (ℕ × PckField)}

/-- A reader that has looked at the first tag of the fields that are left. -/
structure AtTags (base : ℕ) (fields : List (ℕ × PckField)) (next : PackRead) : Prop where
  finds : Finds base [] next fields
  knows : Knows next fields
  fits : ∀ field ∈ fields, FieldFits field
  lt : base + idsOf fields < UINT_MAX - 1

/-- A reader that can look at it. -/
structure TagsLeft (base : ℕ) (fields : List (ℕ × PckField)) (r : PackRead) : Prop where
  look : ∃ next, pckReadTagLook r = .ok next ∧ AtTags base fields next
  length_le : fields.length ≤ r.bytes.length

theorem AtTags.tagNextId_nil (h : AtTags base [] next) : next.tagNextId = UINT_MAX := h.finds.1

theorem AtTags.tagNextId_cons {field : ℕ × PckField} (h : AtTags base (field :: fields) next) :
    next.tagNextId = base + field.1 + 1 ∧ base + field.1 + 1 < UINT_MAX - 1 ∧
      base + field.1 + 1 + idsOf fields < UINT_MAX - 1 := by
  have hlt := h.lt
  have hsum : idsOf (field :: fields) = field.1 + 1 + idsOf fields := sum_cons
  have hmax : UINT_MAX < 2 ^ 32 := by decide
  refine ⟨?_, by omega, by omega⟩
  rw [h.finds.1, u32_of_lt (n := base + 1) (by omega), u32_of_lt (by omega)]
  omega

section

variable (h : AtTags base fields next)
include h

theorem AtTags.tagNextId_ne : next.tagNextId ≠ 0 := by
  cases fields with
  | nil =>
    rw [h.tagNextId_nil]
    decide
  | cons field fields =>
    rw [h.tagNextId_cons.1]
    exact Nat.succ_ne_zero _

theorem AtTags.setIdLast (last : ℕ) : AtTags base fields (next.setIdLast last) := by
  refine ⟨h.finds.setIdLast last, ?_, h.fits, h.lt⟩
  have hknows := h.knows
  cases fields with
  | nil => trivial
  | cons field fields => exact hknows

theorem AtTags.tagsLeft : TagsLeft base fields next :=
  ⟨⟨next, if_neg h.tagNextId_ne, h⟩, h.finds.length_le⟩

end

theorem tagsLeft_of_bytes (hid : r.tagNextId = 0) (hbytes : r.bytes = tagsBytes fields ++ [0])
    (hfits : ∀ field ∈ fields, FieldFits field)
    (hlt : r.tagStack.top.idLast + idsOf fields < UINT_MAX - 1) :
    TagsLeft r.tagStack.top.idLast fields r := by
  obtain ⟨found, next, hnext, -, hfinds, hknows⟩ := pckReadTagNext_finds r fields hfits hbytes
  refine ⟨⟨next, ?_, hfinds, hknows, hfits, hlt⟩, ?_⟩
  · unfold pckReadTagLook
    rw [if_pos hid, hnext]
    rfl
  · rw [hbytes, length_append]
    exact (length_le_tagsBytes _).trans (Nat.le_add_right _ _)

/-- **Tags are skipped** up to the id that was asked for. -/
theorem pckReadTagLoop_reaches (fields : List (ℕ × PckField)) (fuel : ℕ)
    (hlook : pckReadTagLook r = .ok next) (hat : AtTags base fields next) (hid : id < UINT_MAX)
    (hfuel : fields.length < fuel) :
    ∃ skipped base' next', pckReadTagLoop none id fuel r = .ok next' ∧
      AtTags base' (fields.drop skipped) next' ∧ id ≤ next'.tagNextId ∧
      skipped ≤ fields.length ∧ (skipped = 0 → base' = base) := by
  obtain ⟨fuel, rfl⟩ := Nat.exists_eq_succ_of_ne_zero (Nat.ne_of_gt (Nat.zero_lt_of_lt hfuel))
  induction fields generalizing base r next fuel with
  | nil =>
    have hle : id ≤ next.tagNextId := by
      rw [hat.tagNextId_nil]
      exact hid.le
    exact ⟨0, base, next, pckReadTagLoop_found fuel hlook hle, hat, hle, Nat.zero_le _, fun _ => rfl⟩
  | cons field fields ih =>
    by_cases hle : id ≤ next.tagNextId
    · exact ⟨0, base, next, pckReadTagLoop_found fuel hlook hle, hat, hle, Nat.zero_le _, fun _ => rfl⟩
    · -- one turn skips the first tag
      rw [length_cons] at hfuel
      obtain ⟨fuel, rfl⟩ := Nat.exists_eq_succ_of_ne_zero (show fuel ≠ 0 by omega)
      obtain ⟨hnext, -, hlt⟩ := hat.tagNextId_cons
      have hconsume := pckReadConsumeBuffer_ok hat.finds.2.1 hat.finds.2.2
      obtain ⟨r₁, hr₁⟩ : ∃ r₁ : PackRead, r₁ =
          { ({ next with bytes := tagsBytes fields ++ [0], tagNextSize := 0 } : PackRead).setIdLast
              next.tagNextId with tagNextId := 0 } := ⟨_, rfl⟩
      have hturn : pckReadTagLoop none id (fuel + 1 + 1) r = pckReadTagLoop none id (fuel + 1) r₁ := by
        rw [pckReadTagLoop, hlook, ok_bind, if_neg (by omega), if_neg (by omega), hconsume, ok_bind,
          hr₁]
      have hlast : r₁.tagStack.top.idLast = base + field.1 + 1 := by
        rw [hr₁]
        exact hnext
      have hleft := tagsLeft_of_bytes (r := r₁) (by rw [hr₁]) (by rw [hr₁]; rfl)
        (forall_mem_cons.mp hat.fits).2 (by rw [hlast]; exact hlt)
      obtain ⟨next₁, hlook₁, hat₁⟩ := hleft.look
      obtain ⟨skipped, base', next', hloop, hat', hle', hskipped, -⟩ :=
        ih hlook₁ hat₁ fuel (by omega)
      exact ⟨skipped + 1, base', next', hturn.trans hloop, hat', hle',
        Nat.succ_le_succ hskipped, fun h => absurd h (Nat.succ_ne_zero _)⟩

theorem TagsLeft.null (h : TagsLeft base fields r) (hasks : Asks r request id)
    (hid : id < UINT_MAX) :
    ∃ skipped base' next', AtTags base' (fields.drop skipped) next' ∧ id ≤ next'.tagNextId ∧
      skipped ≤ fields.length ∧ (skipped = 0 → base' = base) ∧
      pckReadNullInternal r request =
        if id < next'.tagNextId then .ok ((true, id), next'.setIdLast id)
        else .ok ((false, id), next') := by
  obtain ⟨next, hlook, hat⟩ := h.look
  have hfuel := h.length_le
  obtain ⟨skipped, base', next', hloop, hat', hle, hskipped, hbase⟩ :=
    pckReadTagLoop_reaches fields (r.bytes.length + 2) hlook hat hid (by omega)
  refine ⟨skipped, base', next', hat', hle, hskipped, hbase, ?_⟩
  unfold pckReadNullInternal pckReadTag
  rw [hasks.request, ok_bind, hloop, ok_bind, ok_bind]

/-- What a call for an id leaves: it found no field, or the first one after some
that were skipped. -/
def ReadOne (base : ℕ) (fields : List (ℕ × PckField)) (id : ℕ) (missing : Prop)
    (r : PackRead) : Prop :=
  r.tagStack.top.idLast = id ∧ ∃ skipped ≤ fields.length,
    (missing ∧ ∃ base', TagsLeft base' (fields.drop skipped) r ∧ (skipped = 0 → base' = base)) ∨
    ∃ field left, fields.drop skipped = field :: left ∧ TagsLeft id left r ∧
      (skipped = 0 → id = base + field.1 + 1)

variable {typeMap : PackTypeMap} {α : Type} {cat : α → List UInt8 → Except Error α}

variable {r' : PackRead}

theorem pckReadTag_looked {result : ℕ × ℕ}
    (hne : next.tagNextId ≠ 0) (heq : id = next.tagNextId)
    (h : pckReadTag next id (some typeMap) = .ok (result, r')) :
    next.tagNextTypeMap = some typeMap ∧ result.2 = next.tagNextValue ∧
      r' = { next.setIdLast id with tagNextId := 0 } := by
  unfold pckReadTag pckReadTagRequest at h
  rw [if_neg (by omega)] at h
  split at h
  · cases h
  · rw [ok_bind, pckReadTagLoop, pckReadTagLook, if_neg hne, ok_bind, if_neg (by omega), if_pos heq]
      at h
    unfold pckReadTagFound at h
    dsimp only at h
    split at h
    · cases h
    · rename_i htype
      rw [ok_bind] at h
      cases h
      rw [heq]
      exact ⟨not_not.mp htype, rfl, rfl⟩

/-- A value is read up to the next tag. -/
def UpToNext {α : Type} (typeMap : PackTypeMap)
    (value : PackRead → ℕ → Except Error (α × PackRead)) : Prop :=
  ∀ (f : PckField) (this r' : PackRead) (result : α) (rest : List UInt8), f.Fits →
    f.typeMap = typeMap → this.tagNextSize = f.data.length → this.bytes = f.data ++ rest →
    value this f.value = .ok (result, r') → r' = { this with bytes := rest }

/-- **One field**: it is missing, or the first tag that was not skipped. -/
theorem TagsLeft.field
    {value : PackRead → ℕ → Except Error (α × PackRead)} {defaultValue result : α}
    (h : TagsLeft base fields r) (hasks : Asks r request id) (hid : id < UINT_MAX)
    (hvalue : UpToNext typeMap value)
    (hread : pckReadField typeMap value r request defaultValue = .ok (result, r')) :
    ReadOne base fields id (result = defaultValue) r' := by
  obtain ⟨skipped, base', next', hat, hle, hskipped, hbase, hnull⟩ := h.null hasks hid
  unfold pckReadField at hread
  rw [hnull] at hread
  by_cases hlt : id < next'.tagNextId
  · rw [if_pos hlt, ok_bind] at hread
    cases hread
    exact ⟨rfl, skipped, hskipped, .inl ⟨rfl, base', (hat.setIdLast id).tagsLeft, hbase⟩⟩
  · have heq : id = next'.tagNextId := le_antisymm hle (not_lt.mp hlt)
    rw [if_neg hlt, ok_bind] at hread
    dsimp only at hread
    cases hfound : pckReadTag next' id (some typeMap) with
    | error error =>
      rw [hfound] at hread
      cases hread
    | ok found =>
      obtain ⟨⟨tagId, tagValue⟩, r₁⟩ := found
      rw [hfound, ok_bind] at hread
      obtain ⟨htype, hvalueEq, hr₁⟩ := pckReadTag_looked hat.tagNextId_ne heq hfound
      cases hleft : fields.drop skipped with
      | nil =>
        rw [hleft] at hat
        rw [hat.tagNextId_nil] at heq
        omega
      | cons field left =>
        rw [hleft] at hat
        obtain ⟨hnext, -, hids⟩ := hat.tagNextId_cons
        obtain ⟨hknowsType, hknowsValue⟩ := hat.knows
        obtain ⟨-, hsize, hbytes⟩ := hat.finds
        have hfield : field.2.typeMap = typeMap :=
          Option.some.inj (hknowsType.symm.trans htype)
        have hread : value r₁ field.2.value = .ok (result, r') := by
          rw [← hknowsValue, ← hvalueEq]
          exact hread
        have hr' := hvalue field.2 r₁ r' result (tagsBytes left ++ [0])
          (hat.fits field mem_cons_self).fits hfield (by rw [hr₁]; exact hsize)
          (by rw [hr₁]; exact hbytes) hread
        have hlast : r'.tagStack.top.idLast = id := by
          rw [hr', hr₁]
          rfl
        have htags : TagsLeft r'.tagStack.top.idLast left r' := by
          refine tagsLeft_of_bytes (by rw [hr', hr₁]) (by rw [hr'])
            (forall_mem_cons.mp hat.fits).2 ?_
          rw [hlast, heq, hnext]
          exact hids
        rw [hlast] at htags
        refine ⟨hlast, skipped, hskipped, .inr ⟨field, left, hleft, htags, fun hzero => ?_⟩⟩
        rw [heq, hnext, hbase hzero]

theorem pckReadChunks_bytes (fuel size : ℕ)
    (result result' : α) (r r' : PackRead) (hfuel : size ≤ fuel) (hsize : size ≤ r.bytes.length)
    (h : pckReadChunks cat fuel size result r = .ok (result', r')) :
    r' = { r with bytes := r.bytes.drop size } := by
  induction fuel generalizing size result r with
  | zero =>
    obtain rfl := Nat.le_zero.mp hfuel
    exact (ok_inj h).2.symm
  | succ fuel ih =>
    unfold pckReadChunks at h
    split at h
    · rename_i hzero
      rw [hzero]
      exact (ok_inj h).2.symm
    · rename_i hpos
      have hlimit := pckReadLimit_le r.read size
      have hlimitPos := pckReadLimit_pos r.read (Nat.pos_of_ne_zero hpos)
      unfold pckReadBuffer at h
      dsimp only at h
      split at h
      · cases h
      · rw [ok_bind] at h
        have hlength : (r.bytes.take (pckReadLimit r.read size)).length = pckReadLimit r.read size :=
          length_take_of_le (by omega)
        cases hcat : cat result (r.bytes.take (pckReadLimit r.read size)) with
        | error error =>
          rw [hcat] at h
          cases h
        | ok result₁ =>
          rw [hcat, ok_bind, hlength] at h
          have hrest := ih _ _ _ (by omega)
            (by show _ ≤ (r.bytes.drop _).length; rw [length_drop]; omega) h
          rw [hrest]
          rw [drop_drop, Nat.add_sub_cancel' hlimit]

theorem upToNext_number (value : ℕ → α) (hsize : (packTypeMapData typeMap).size = false) :
    UpToNext typeMap (fun this tagValue => .ok (value tagValue, this)) := by
  intro f this r' result rest hfits htype hnext hbytes hread
  have hdata : f.data = [] := by
    refine hfits.data_nil ?_
    unfold sizeFollows
    rw [htype, hsize, Bool.false_and]
  cases hread
  rw [hdata, nil_append] at hbytes
  rw [← hbytes]

theorem upToNext_chunks {β : Type} (start : α) (value : α → β) :
    UpToNext typeMap (fun this _ => (pckReadChunks cat this.tagNextSize this.tagNextSize start this).map
      (fun (result, this) => (value result, this))) := by
  intro f this r' result rest hfits htype hnext hbytes hread
  dsimp only at hread
  cases hchunks : pckReadChunks cat this.tagNextSize this.tagNextSize start this with
  | error error =>
    rw [hchunks] at hread
    cases hread
  | ok chunks =>
    obtain ⟨result₁, r₁⟩ := chunks
    rw [hchunks] at hread
    cases hread
    have hlength : this.tagNextSize ≤ this.bytes.length := by
      rw [hnext, hbytes, length_append]
      exact Nat.le_add_right _ _
    rw [pckReadChunks_bytes _ _ _ _ _ _ le_rfl hlength hchunks, hnext, hbytes, drop_left]

/-- A field whose data is there when the tag says so. -/
theorem upToNext_data {β : Type}
    (start : α) (value : α → β) (empty : β) (hdata : sizeFollows typeMap 0 = false) :
    UpToNext typeMap (fun this tagValue =>
      if tagValue ≠ 0 then
        (pckReadChunks cat this.tagNextSize this.tagNextSize start this).map
          (fun (result, this) => (value result, this))
      else .ok (empty, this)) := by
  intro f this r' result rest hfits htype hnext hbytes hread
  by_cases hzero : f.value = 0
  · have hnil : f.data = [] := hfits.data_nil (by rw [htype, hzero, hdata])
    dsimp only at hread
    rw [if_neg (not_not.mpr hzero)] at hread
    cases hread
    rw [hnil, nil_append] at hbytes
    rw [← hbytes]
  · dsimp only at hread
    rw [if_pos hzero] at hread
    exact upToNext_chunks start value f this r' result rest hfits htype hnext hbytes hread

theorem pckValue_eq_ok {value : α → PckValue} {result : Except Error (α × PackRead)}
    {v : PckValue} (h : pckValue value result = .ok (v, r')) :
    ∃ x, result = .ok (x, r') ∧ v = value x := by
  cases hresult : result with
  | error error =>
    rw [hresult] at h
    cases h
  | ok read =>
    obtain ⟨x, r₁⟩ := read
    rw [hresult] at h
    cases h
    exact ⟨x, rfl, rfl⟩

theorem ReadOne.imp {missing missing' : Prop} (h : ReadOne base fields id missing r)
    (himp : missing → missing') : ReadOne base fields id missing' r := by
  obtain ⟨hlast, skipped, hskipped, hread⟩ := h
  exact ⟨hlast, skipped, hskipped, hread.imp_left (fun h => ⟨himp h.1, h.2⟩)⟩

/-- **One call for a field.** -/
theorem pckReadCallId_flat {read : PckReadCall} {value : PckValue}
    (h : TagsLeft base fields r) (hasks : Asks r request id) (hid : id < UINT_MAX)
    (hfield : read.isField = true) (hlist : read ≠ .strLst)
    (hnull : read = .null → value = .null true)
    (hread : pckReadCallId r request read = .ok (value, r')) :
    ReadOne base fields id (value = read.missing) r' := by
  have hone : ∀ {α : Type} {typeMap : PackTypeMap} {get : PackRead → ℕ → Except Error (α × PackRead)}
      {defaultValue : α} (c : α → PckValue), UpToNext typeMap get →
      pckValue c (pckReadField typeMap get r request defaultValue) = .ok (value, r') →
      ReadOne base fields id (value = c defaultValue) r' := by
    intro α typeMap get defaultValue c hget hread
    obtain ⟨x, hfound, rfl⟩ := pckValue_eq_ok hread
    exact (h.field hasks hid hget hfound).imp (congrArg c)
  cases read with
  | null =>
    obtain ⟨skipped, base', next', hat, hle, hskipped, hbase, hlook⟩ := h.null hasks hid
    obtain ⟨x, hread, hvalue⟩ := pckValue_eq_ok hread
    obtain rfl := PckValue.null.inj (hvalue.symm.trans (hnull rfl))
    unfold pckReadNull at hread
    rw [hlook] at hread
    by_cases hlt : id < next'.tagNextId
    · rw [if_pos hlt, ok_bind] at hread
      cases hread
      exact ⟨rfl, skipped, hskipped, .inl ⟨hvalue, base', (hat.setIdLast id).tagsLeft, hbase⟩⟩
    · rw [if_neg hlt, ok_bind] at hread
      cases (ok_inj hread).1
  | bool defaultValue => exact hone PckValue.bool (upToNext_number _ rfl) hread
  | i32 defaultValue => exact hone PckValue.i32 (upToNext_number _ rfl) hread
  | i64 defaultValue => exact hone PckValue.i64 (upToNext_number _ rfl) hread
  | mode defaultValue => exact hone PckValue.mode (upToNext_number _ rfl) hread
  | u32 defaultValue => exact hone PckValue.u32 (upToNext_number _ rfl) hread
  | u64 defaultValue => exact hone PckValue.u64 (upToNext_number _ rfl) hread
  | strId defaultValue => exact hone PckValue.strId (upToNext_number _ rfl) hread
  | time defaultValue => exact hone PckValue.time (upToNext_number _ rfl) hread
  | str defaultValue => exact hone PckValue.str (upToNext_data strNew (fun s => some s.bytes) _ rfl) hread
  | bin => exact hone PckValue.bin (upToNext_data [] some _ rfl) hread
  | pack => exact hone PckValue.pack (upToNext_chunks [] some) hread
  | strLst => exact absurd rfl hlist
  | arrayBegin | arrayEnd | objBegin | objEnd => cases hfield

end Read

/-! ## All calls -/

section Calls

variable {r r' : PackRead} {base : ℕ} {fields : List (ℕ × PckField)}
  {containers after : OpenContainers} {call : PckIdCall} {calls : List PckIdCall}

theorem PckIdCall.Flat.isField (hflat : call.Flat) (hcorresponds : Corresponds call.write call.read) :
    call.read.isField = true ∧
      (call.read = .null → writtenValue call.write call.read = .null true) := by
  have hemit := hflat.emit
  cases hwrite : call.write with
  | null =>
    rw [hwrite] at hcorresponds
    exact ⟨hcorresponds, fun h => by rw [h]; rfl⟩
  | bool | i32 | i64 | mode | u32 | u64 | strId | time | str | bin | pack | strLst =>
    rw [hwrite] at hcorresponds
    rw [show call.read = _ from hcorresponds]
    exact ⟨rfl, nofun⟩
  | arrayBegin | arrayEnd | objBegin | objEnd =>
    rw [hwrite] at hemit
    cases hemit with
    | inl h => cases h
    | inr h => obtain ⟨f, h⟩ := h; cases h

/-- **The first call** of those that read what was written. -/
theorem pckReadIdCalls_cons (hcorresponds : Corresponds call.write call.read) (hflat : call.Flat)
    (hopen : call.open? containers = some after) (h : TagsLeft base fields r)
    (hlast : r.tagStack.top.idLast = containers.1.2)
    (hread : pckReadIdCalls r (call :: calls) = .ok (writtenValues (call :: calls), r')) :
    ∃ r₁, ReadOne base fields after.1.2
        (writtenValue call.write call.read = call.read.missing) r₁ ∧
      pckReadIdCalls r₁ calls = .ok (writtenValues calls, r') := by
  obtain ⟨rfl, hused, hmax, -⟩ := hflat.open? hopen
  have hlimit : UINT_MAX = 2 ^ 32 - 1 := rfl
  have hasks : Asks r call.id (usedId containers.1.2 call.id) := by
    unfold usedId at hused hmax ⊢
    by_cases hzero : call.id = 0
    · rw [if_pos hzero] at hmax ⊢
      exact .inl ⟨hzero, by rw [hlast], by omega⟩
    · rw [if_neg hzero] at hused ⊢
      exact .inr ⟨hzero, rfl, by rw [hlast]; exact hused⟩
  obtain ⟨hfield, hnull⟩ := hflat.isField hcorresponds
  unfold pckReadIdCalls at hread
  cases hcall : pckReadCallId r call.id call.read with
  | error error =>
    rw [hcall] at hread
    cases hread
  | ok read =>
    obtain ⟨value, r₁⟩ := read
    rw [hcall, ok_bind] at hread
    dsimp only at hread
    cases hcalls : pckReadIdCalls r₁ calls with
    | error error =>
      rw [hcalls] at hread
      cases hread
    | ok reads =>
      obtain ⟨values, r₂⟩ := reads
      rw [hcalls, ok_bind] at hread
      obtain ⟨hvalues, rfl⟩ := ok_inj hread
      obtain ⟨rfl, rfl⟩ := cons.inj hvalues
      have hid : usedId containers.1.2 call.id < UINT_MAX := by omega
      exact ⟨r₁, pckReadCallId_flat h hasks hid hfield hflat.read hnull hcall, hcalls⟩

/-- **Every field that is stored needs a tag.** -/
theorem countP_hasTag_le (calls : List PckIdCall) (r : PackRead) (base : ℕ)
    (fields : List (ℕ × PckField)) (containers : OpenContainers)
    (hcorresponds : ∀ call ∈ calls, Corresponds call.write call.read)
    (hflat : ∀ call ∈ calls, call.Flat) (hallowed : IdCallsAllowed containers calls)
    (h : TagsLeft base fields r) (hlast : r.tagStack.top.idLast = containers.1.2)
    (hread : pckReadIdCalls r calls = .ok (writtenValues calls, r')) :
    calls.countP (fun call => call.write.emit.hasTag) ≤ fields.length := by
  induction calls generalizing r base fields containers with
  | nil => exact Nat.zero_le _
  | cons call calls ih =>
    rw [forall_mem_cons] at hcorresponds hflat
    obtain ⟨after, hopen, hcalls⟩ := hallowed
    obtain ⟨r₁, ⟨hlast₁, skipped, hskipped, hone⟩, hread₁⟩ :=
      pckReadIdCalls_cons hcorresponds.1 hflat.1 hopen h hlast hread
    rw [countP_cons]
    cases hone with
    | inl hmissing =>
      obtain ⟨hmissing, base', hleft, -⟩ := hmissing
      have hle := ih r₁ base' _ after hcorresponds.2 hflat.2 hcalls hleft hlast₁ hread₁
      rw [length_drop] at hle
      rw [if_neg (fun htag => hflat.1.value htag hmissing)]
      omega
    | inr hfound =>
      obtain ⟨field, left, hdrop, hleft, -⟩ := hfound
      have hle := ih r₁ _ left after hcorresponds.2 hflat.2 hcalls hleft hlast₁ hread₁
      have hlength := congrArg length hdrop
      rw [length_drop, length_cons] at hlength
      split <;> omega

theorem PckIdCall.Flat.length_tag (hflat : call.Flat) (t : PackTagStack) :
    (call.tag t).length = if call.write.emit.hasTag then 1 else 0 := by
  unfold PckIdCall.tag
  cases hemit : call.write.emit with
  | missing | field | closes => rfl
  | list | opens =>
    cases hflat.emit with
    | inl h => rw [hemit] at h; cases h
    | inr h => obtain ⟨f, h⟩ := h; rw [hemit] at h; cases h

theorem length_tagsId (calls : List PckIdCall) (hflat : ∀ call ∈ calls, call.Flat) (t : PackTagStack) :
    (tagsId t calls).length = calls.countP (fun call => call.write.emit.hasTag) := by
  induction calls generalizing t with
  | nil => rfl
  | cons call calls ih =>
    rw [forall_mem_cons] at hflat
    rw [countP_cons, ← ih hflat.2 (call.stack t), Nat.add_comm, ← hflat.1.length_tag t]
    exact length_append

/-- **No automatic id is stored while the writer is behind**, if what was written
is read back. -/
theorem idsKept_of_reads (calls : List PckIdCall) (r : PackRead) (t : PackTagStack)
    (containers : OpenContainers) (behind : Bool)
    (hcorresponds : ∀ call ∈ calls, Corresponds call.write call.read)
    (hflat : ∀ call ∈ calls, call.Flat) (hallowed : IdCallsAllowed containers calls)
    (h : TagsLeft t.top.idLast (tagsId t calls) r)
    (hlast : r.tagStack.top.idLast = containers.1.2) (hle : t.counted ≤ containers.1.2)
    (hbehind : behind = true → t.counted < containers.1.2)
    (hread : pckReadIdCalls r calls = .ok (writtenValues calls, r')) :
    IdsKept containers behind calls := by
  induction calls generalizing r t containers behind with
  | nil => trivial
  | cons call calls ih =>
    rw [forall_mem_cons] at hcorresponds hflat
    obtain ⟨after, hopen, hcalls⟩ := hallowed
    obtain ⟨r₁, ⟨hlast₁, skipped, hskipped, hone⟩, hread₁⟩ :=
      pckReadIdCalls_cons hcorresponds.1 hflat.1 hopen h hlast hread
    obtain ⟨hafter, hused, -, -⟩ := hflat.1.open? hopen
    have hused' : after.1.2 = usedId containers.1.2 call.id := by rw [hafter]
    have hcounted := counted_stack hle hused
    rw [← hused'] at hcounted
    have htag := hflat.1.length_tag t
    have hfields : (tagsId t (call :: calls)).length
        = (call.tag t).length + (tagsId (call.stack t) calls).length := length_append
    have hrest := length_tagsId calls hflat.2 (call.stack t)
    have hcount := fun base fields h =>
      countP_hasTag_le calls r₁ base fields after hcorresponds.2 hflat.2 hcalls h hlast₁ hread₁
    have hstack := (idLast_stack t call).1
    cases hone with
    | inl hmissing =>
      -- nothing was stored, and no tag was skipped
      obtain ⟨hmissing, base', hleft, hbase⟩ := hmissing
      have hnot : call.write.emit.hasTag ≠ true := fun h => hflat.1.value h hmissing
      rw [if_neg hnot] at htag
      have hnil := eq_nil_of_length_eq_zero htag
      have hle' := hcount _ _ hleft
      rw [length_drop] at hle'
      obtain rfl : skipped = 0 := by omega
      have hemit : call.write.emit = .missing := by
        cases hflat.1.emit with
        | inl h => exact h
        | inr h => obtain ⟨f, h⟩ := h; rw [h] at hnot; exact absurd rfl hnot
      have hsame : tagsId t (call :: calls) = tagsId (call.stack t) calls := by
        show call.tag t ++ _ = _
        rw [hnil, nil_append]
      rw [hbase rfl, drop_zero, hsame, ← show (call.stack t).top.idLast = t.top.idLast by
        rw [hstack, hnil]; rfl] at hleft
      refine ⟨fun htrue => absurd htrue hnot, fun after' hopen' => ?_⟩
      cases hopen.symm.trans hopen'
      refine ih r₁ (call.stack t) after _ hcorresponds.2 hflat.2 hcalls hleft hlast₁ hcounted ?_ hread₁
      have hnull : (call.stack t).counted = t.counted + 1 := by
        unfold PckIdCall.stack
        rw [hemit]
        rfl
      unfold PckIdCall.behind
      rw [hemit, hnull, hused']
      intro hbehind'
      unfold usedId at hused ⊢
      rcases Bool.or_eq_true_iff.mp hbehind' with hwas | hnow
      · have := hbehind hwas
        split <;> rename_i hzero
        · omega
        · rw [if_neg hzero] at hused
          omega
      · obtain ⟨hid, hne⟩ := of_decide_eq_true hnow
        rw [if_neg hid] at hused ⊢
        omega
    | inr hfound =>
      -- a field was found: the first one, for all others are needed
      obtain ⟨field, left, hdrop, hleft, hid⟩ := hfound
      have hle' := hcount _ _ hleft
      have hlength := congrArg length hdrop
      rw [length_drop, length_cons] at hlength
      have htrue : call.write.emit.hasTag = true := by
        by_contra hnot
        rw [if_neg hnot] at htag
        omega
      rw [if_pos htrue] at htag
      obtain rfl : skipped = 0 := by omega
      obtain ⟨tag, htagEq⟩ := length_eq_one_iff.mp htag
      have hcons : tagsId t (call :: calls) = tag :: tagsId (call.stack t) calls := by
        show call.tag t ++ _ = _
        rw [htagEq]
        rfl
      rw [drop_zero, hcons] at hdrop
      obtain ⟨rfl, rfl⟩ := cons.inj hdrop
      have hid := hid rfl
      have hnull : tag.1 = (t.request call.id).top.nullTotal := by
        unfold PckIdCall.tag at htagEq
        cases hemit : call.write.emit with
        | field f =>
          rw [hemit] at htagEq
          rw [← (cons.inj htagEq).1]
        | missing | list | opens | closes =>
          rw [hemit] at htagEq
          cases htagEq
      have hidLast : (call.stack t).top.idLast = after.1.2 := by
        rw [hstack, htagEq, hid]
        show t.top.idLast + (tag.1 + 1 + 0) = _
        omega
      rw [← hidLast] at hleft
      refine ⟨fun _ hzero => ?_, fun after' hopen' => ?_⟩
      · rw [hzero, PackTagStack.request_zero] at hnull
        unfold usedId at hused'
        rw [if_pos hzero] at hused'
        have heq : ¬ t.counted < containers.1.2 := by
          unfold PackTagStack.counted
          omega
        exact Bool.eq_false_iff.mpr (fun h => heq (hbehind h))
      · cases hopen.symm.trans hopen'
        refine ih r₁ (call.stack t) after _ hcorresponds.2 hflat.2 hcalls hleft hlast₁ hcounted ?_ hread₁
        unfold PckIdCall.behind
        cases hemit : call.write.emit with
        | missing =>
          rw [hemit] at htrue
          cases htrue
        | field | list | opens | closes => exact nofun

end Calls

/-- **Explicit and automatic ids mix** if no tag is stored with an automatic id
while the writer is behind. For fields without containers they mix only then. -/
theorem readsBack_iff_idsKept (write read : Option ℕ+) (calls : List PckIdCall)
    (hcorresponds : ∀ call ∈ calls, Corresponds call.write call.read)
    (hallowed : IdCallsAllowed ((.obj, 0), []) calls) :
    (IdsKept ((.obj, 0), []) false calls → ReadsBack write read calls) ∧
      ((∀ call ∈ calls, call.Flat) →
        (ReadsBack write read calls ↔ IdsKept ((.obj, 0), []) false calls)) := by
  have hkept : IdsKept ((.obj, 0), []) false calls → ReadsBack write read calls := by
    intro hkept
    obtain ⟨w, r, hwrite, hread, -⟩ :=
      pckReadIdCalls_pckWriteIdCalls write read calls hcorresponds hallowed hkept
    exact ⟨w, r, hwrite, hread⟩
  refine ⟨hkept, fun hflat => ⟨fun ⟨w, r, hwrite, hread⟩ => ?_, hkept⟩⟩
  obtain ⟨w', hwrite', hresult, hfits⟩ := pckWriteIdCalls_flat calls (pckWriteNew write)
    ((.obj, 0), []) (fun _ => rfl) rfl hflat hallowed le_rfl
  cases hwrite.symm.trans hwrite'
  have hids := idsOf_tagsId calls .bottom ((.obj, 0), []) hflat hallowed le_rfl (by decide)
  have hleft := tagsLeft_of_bytes (r := pckReadNew read (pckWriteResult w)) rfl hresult hfits hids
  exact idsKept_of_reads calls _ .bottom _ false hcorresponds hflat hallowed hleft rfl le_rfl nofun
    hread

/-- The value 7 gets an id before that of the field that was left out. -/
def behindSample : List PckIdCall := [⟨3, .u32 0 false 0, .u32 0⟩, ⟨0, .u32 7 false 0, .u32 0⟩]

/-- **Explicit and automatic ids do not mix**: after a field with an explicit id
was left out, a value reads as its default. -/
theorem pckReadIdCalls_behind :
    (∀ call ∈ behindSample, Corresponds call.write call.read) ∧
      IdCallsAllowed ((.obj, 0), []) behindSample ∧
      writtenValues behindSample = [.u32 0, .u32 7] ∧
      ∃ w r, pckWriteIdCalls (pckWriteNew none) behindSample = .ok w ∧
        pckReadIdCalls (pckReadNew none (pckWriteResult w)) behindSample
          = .ok ([.u32 0, .u32 0], r) := by
  refine ⟨?_, ⟨_, rfl, _, rfl, rfl⟩, rfl, _, _, rfl, rfl⟩
  unfold behindSample
  simp only [forall_mem_cons]
  exact ⟨rfl, rfl, fun _ h => absurd h not_mem_nil⟩

/-- An explicit id that is stored, one that is left out, and one that is stored
before the automatic ids go on. -/
def keptSample : List PckIdCall :=
  [⟨4, .u64 77 false 0, .u64 0⟩, ⟨7, .u32 0 false 0, .u32 0⟩, ⟨0, .null, .bool 1⟩,
    ⟨12, .bool true false 0, .bool 0⟩, ⟨0, .i32 (-1) false 0, .i32 0⟩]

theorem readsBack_iff_idsKept_sample :
    ReadsBack none (some 2) keptSample ∧
      (ReadsBack none (some 2) keptSample ↔ IdsKept ((.obj, 0), []) false keptSample) := by
  obtain ⟨hkept, hiff⟩ := readsBack_iff_idsKept none (some 2) keptSample
    (by
      unfold keptSample
      simp only [forall_mem_cons]
      exact ⟨rfl, rfl, rfl, rfl, rfl, fun _ h => absurd h not_mem_nil⟩)
    ⟨_, rfl, _, rfl, _, rfl, _, rfl, _, rfl, rfl⟩
  refine ⟨hkept (by decide), hiff ?_⟩
  unfold keptSample
  simp only [forall_mem_cons]
  refine ⟨⟨.inr ⟨_, rfl⟩, nofun, fun _ => ?_⟩, ⟨.inl rfl, nofun, nofun⟩, ⟨.inl rfl, nofun, nofun⟩,
    ⟨.inr ⟨_, rfl⟩, nofun, fun _ => ?_⟩, ⟨.inr ⟨_, rfl⟩, nofun, fun _ => ?_⟩,
    fun _ h => absurd h not_mem_nil⟩
  · exact fun h => absurd (PckValue.u64.inj h) (by decide)
  · exact fun h => absurd (PckValue.bool.inj h) (by decide)
  · exact fun h => absurd (PckValue.i32.inj h) (by decide)

end PgxBackup
