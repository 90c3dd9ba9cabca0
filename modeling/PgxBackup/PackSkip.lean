import PgxBackup.PackRoundTrip

/-!
# The end of a container that was not read completely

A reader that does not know the last fields of a container ends it before
they were read. `pckReadTag` then skips one tag after another, with its data,
up to the end. It does not know how deep it is in the containers that it
skips, so this end may be that of an inner one.
-/

namespace PgxBackup

open List

/-! ## The tags before an end -/

/-- The bytes of fields, each after a number of nulls. -/
def tagsBytes (fields : List (ℕ × PckField)) : List UInt8 :=
  fields.flatMap (fun field => field.2.bytes field.1)

/-- The ids that fields take up. -/
def idsOf (fields : List (ℕ × PckField)) : ℕ := (fields.map (fun field => field.1 + 1)).sum

/-- The tags of what was written up to the first end. -/
def tagFields : ℕ → List PckWriteCall → List (ℕ × PckField)
  | _, [] => []
  | nullTotal, call :: calls =>
    match call.emit with
    | .missing => tagFields (nullTotal + 1) calls
    | .field f => (nullTotal, f) :: tagFields 0 calls
    | .opens typeMap => (nullTotal, ⟨typeMap, 0, []⟩) :: tagFields 0 calls
    | .list strs => (nullTotal, ⟨.array, 0, []⟩) :: strs.map (fun s => (0, dataField .str s.bytes))
    | .closes _ => []

/-- The bytes after the first end. -/
def afterTags (rest : List UInt8) : PackTagStack → List PckWriteCall → List UInt8
  | _, [] => rest
  | s, call :: calls =>
    match call.emit with
    | .missing | .field _ | .opens _ => afterTags rest (call.emit.stack s) calls
    | .list _ | .closes _ => emitted rest (call.emit.stack s) calls

def PackTagStack.after (s : PackTagStack) : List PckWriteCall → PackTagStack
  | [] => s
  | call :: calls => (call.emit.stack s).after calls

def PckWriteCall.isContainer (call : PckWriteCall) : Bool :=
  match call.emit with
  | .list _ | .opens _ => true
  | _ => false

/-- How deep the calls are in containers, if they only end what they began. -/
def pckDepth : ℕ → List PckWriteCall → Option ℕ
  | depth, [] => some depth
  | depth, call :: calls =>
    match call.emit with
    | .opens _ => pckDepth (depth + 1) calls
    | .closes _ => if depth = 0 then none else pckDepth (depth - 1) calls
    | _ => pckDepth depth calls

section Tags

variable {s : PackTagStack} {rest : List UInt8}

theorem tagsBytes_cons (field : ℕ × PckField) (fields : List (ℕ × PckField)) :
    tagsBytes (field :: fields) = field.2.bytes field.1 ++ tagsBytes fields :=
  flatMap_cons

section

variable (call : PckWriteCall) (calls : List PckWriteCall)

theorem emitted_cons :
    emitted rest s (call :: calls)
      = call.emit.bytes s.top.nullTotal ++ emitted rest (call.emit.stack s) calls :=
  rfl

theorem afterTags_cons :
    afterTags rest s (call :: calls) =
      match call.emit with
      | .missing | .field _ | .opens _ => afterTags rest (call.emit.stack s) calls
      | .list _ | .closes _ => emitted rest (call.emit.stack s) calls :=
  rfl

end

variable {typeMap : PackTypeMap}

theorem containerTag_bytes (htype : typeMap = .array ∨ typeMap = .obj)
    (nullTotal : ℕ) : PckField.bytes ⟨typeMap, 0, []⟩ nullTotal = tagBytes typeMap nullTotal 0 := by
  refine PckField.bytes_tag ?_
  rcases htype with rfl | rfl
  · rfl
  · rfl

theorem emit_opens {call : PckWriteCall} (h : call.emit = .opens typeMap) :
    typeMap = .array ∨ typeMap = .obj := by
  have hunless : ∀ (leave : Bool) (f : PckField), emitUnless leave f ≠ .opens typeMap := by
    intro leave f hunless
    cases leave with
    | true => cases hunless
    | false => cases hunless
  cases call with
  | arrayBegin => exact .inl (Emit.opens.inj h).symm
  | objBegin => exact .inr (Emit.opens.inj h).symm
  | null | arrayEnd | objEnd => cases h
  | bool | i32 | i64 | mode | u32 | u64 | strId | time => exact absurd h (hunless _ _)
  | str value defaultWrite defaultValue =>
    cases value with
    | none => cases h
    | some value => exact absurd h (hunless _ _)
  | bin value | pack value | strLst value =>
    cases value with
    | none => cases h
    | some value => cases h

/-- **What was written** are tags, an end and what comes after it. -/
theorem emitted_eq_tags (rest : List UInt8) (calls : List PckWriteCall) (s : PackTagStack) :
    emitted rest s calls
      = tagsBytes (tagFields s.top.nullTotal calls) ++ 0 :: afterTags rest s calls := by
  induction calls generalizing s with
  | nil => rfl
  | cons call calls ih =>
    unfold emitted tagFields afterTags
    cases hemit : call.emit with
    | missing => exact ih s.null
    | field f =>
      show f.bytes s.top.nullTotal ++ _ = _
      rw [ih, tagsBytes_cons, append_assoc]
      rfl
    | opens typeMap =>
      show tagBytes typeMap s.top.nullTotal 0 ++ _ = _
      rw [ih, tagsBytes_cons, append_assoc, containerTag_bytes (emit_opens hemit)]
      rfl
    | list strs =>
      show tagBytes .array s.top.nullTotal 0 ++ (_ ++ [0]) ++ _ = _
      rw [tagsBytes_cons, containerTag_bytes (.inl rfl)]
      unfold tagsBytes
      rw [flatMap_map]
      simp only [append_assoc, singleton_append]
    | closes typeMap => rfl

theorem CallsAllowed.tail {call : PckWriteCall} {calls : List PckWriteCall}
    (hallowed : CallsAllowed s.containers (call :: calls)) (hvalid : s.Valid) :
    CallsAllowed (call.emit.stack s).containers calls ∧ (call.emit.stack s).Valid ∧
      ((∃ typeMap, call.emit = .closes typeMap) ∨ s.Room) := by
  obtain ⟨after, hopen, hcalls⟩ := hallowed
  obtain ⟨-, -, -, hafter⟩ := pckWriteCall_ok call ⟨none, [], [], s⟩ hopen
  refine ⟨hafter ▸ hcalls, hvalid.emit hopen, ?_⟩
  rcases open?_cases hopen with ⟨hroom, -⟩ | ⟨hroom, -⟩ | ⟨-, ⟨rfl, -⟩ | ⟨rfl, -⟩⟩
  · exact .inr hroom
  · exact .inr hroom
  · exact .inl ⟨_, rfl⟩
  · exact .inl ⟨_, rfl⟩

/-- A field that can be stored after its nulls. -/
structure FieldFits (field : ℕ × PckField) : Prop where
  fits : field.2.Fits
  nullTotal_lt : field.1 < 2 ^ 32

theorem fieldFits_of_room (hroom : s.Room) {f : PckField} (hfits : f.Fits) :
    FieldFits (s.top.nullTotal, f) := by
  refine ⟨hfits, ?_⟩
  have hlt := hroom.lt
  show s.top.nullTotal < 2 ^ 32
  omega

theorem containerTag_fits (htype : typeMap = .array ∨ typeMap = .obj) :
    PckField.Fits ⟨typeMap, 0, []⟩ :=
  ⟨containers_fits htype, by simp, fun _ => rfl⟩

section

variable (calls : List PckWriteCall) (s : PackTagStack) (hvalid : s.Valid)
  (hallowed : CallsAllowed s.containers calls)
include hvalid hallowed

/-- **The tags before an end fit.** -/
theorem tagFields_fits : ∀ field ∈ tagFields s.top.nullTotal calls, FieldFits field := by
  induction calls generalizing s with
  | nil => exact fun field h => absurd h not_mem_nil
  | cons call calls ih =>
    obtain ⟨hcalls, hvalid', hroom⟩ := hallowed.tail hvalid
    have hrest := ih _ hvalid' hcalls
    unfold tagFields
    cases hemit : call.emit with
    | closes typeMap => exact fun field h => absurd h not_mem_nil
    | missing =>
      rw [hemit] at hrest
      exact hrest
    | field f =>
      rw [hemit] at hrest
      have hroom : s.Room := hroom.resolve_left (fun ⟨_, h⟩ => by rw [hemit] at h; cases h)
      exact forall_mem_cons.mpr ⟨fieldFits_of_room hroom (call.emit_fits hemit), hrest⟩
    | opens typeMap =>
      rw [hemit] at hrest
      have hroom : s.Room := hroom.resolve_left (fun ⟨_, h⟩ => by rw [hemit] at h; cases h)
      exact forall_mem_cons.mpr
        ⟨fieldFits_of_room hroom (containerTag_fits (emit_opens hemit)), hrest⟩
    | list strs =>
      have hroom : s.Room := hroom.resolve_left (fun ⟨_, h⟩ => by rw [hemit] at h; cases h)
      refine forall_mem_cons.mpr
        ⟨fieldFits_of_room hroom (containerTag_fits (.inl rfl)), fun field hfield => ?_⟩
      obtain ⟨str, -, rfl⟩ := mem_map.mp hfield
      exact ⟨dataField_fits (.inl rfl) (lt_of_le_of_lt str.size_le (by decide)), Nat.two_pow_pos 32⟩

theorem tagFields_head {field : ℕ × PckField} {fields : List (ℕ × PckField)}
    (hfields : tagFields s.top.nullTotal calls = field :: fields) :
    s.top.idLast + field.1 + 1 < UINT_MAX - 1 := by
  induction calls generalizing s with
  | nil => cases hfields
  | cons call calls ih =>
    obtain ⟨hcalls, hvalid', hroom⟩ := hallowed.tail hvalid
    unfold tagFields at hfields
    cases hemit : call.emit with
    | closes typeMap =>
      rw [hemit] at hfields
      cases hfields
    | missing =>
      rw [hemit] at hfields hcalls hvalid'
      exact ih s.null hvalid' hcalls hfields
    | field | opens | list =>
      rw [hemit] at hfields
      obtain rfl := (cons.inj hfields).1
      exact hroom.resolve_left (fun ⟨_, h⟩ => by rw [hemit] at h; cases h)

end

/-! ### Fields that are no containers -/

/-- The first end after fields that are no containers is the next one. -/
theorem afterTags_flat (rest : List UInt8) (unread calls : List PckWriteCall) (s : PackTagStack)
    (hdepth : pckDepth 0 unread = some 0) (hflat : ∀ call ∈ unread, call.isContainer = false) :
    afterTags rest s (unread ++ calls) = afterTags rest (s.after unread) calls := by
  induction unread generalizing s with
  | nil => rfl
  | cons call unread ih =>
    rw [forall_mem_cons] at hflat
    unfold pckDepth at hdepth
    have hcall := hflat.1
    unfold PckWriteCall.isContainer at hcall
    show _ = afterTags rest ((call.emit.stack s).after unread) calls
    rw [cons_append, afterTags_cons]
    cases hemit : call.emit with
    | missing | field =>
      rw [hemit] at hdepth
      exact ih _ hdepth hflat.2
    | opens | list =>
      rw [hemit] at hcall
      cases hcall
    | closes typeMap =>
      rw [hemit] at hdepth
      cases hdepth

theorem idsOf_flat (unread calls : List PckWriteCall) (s : PackTagStack) (hvalid : s.Valid)
    (hallowed : CallsAllowed s.containers (unread ++ calls))
    (hdepth : pckDepth 0 unread = some 0) (hflat : ∀ call ∈ unread, call.isContainer = false)
    (hcalls : ∀ nullTotal, tagFields nullTotal calls = []) :
    s.top.idLast + idsOf (tagFields s.top.nullTotal (unread ++ calls)) < UINT_MAX - 1 := by
  induction unread generalizing s with
  | nil =>
    rw [nil_append, hcalls]
    have htop := hvalid.top
    show s.top.idLast + 0 < _
    omega
  | cons call unread ih =>
    rw [forall_mem_cons] at hflat
    unfold pckDepth at hdepth
    have hcall := hflat.1
    unfold PckWriteCall.isContainer at hcall
    obtain ⟨htail, hvalid', -⟩ := CallsAllowed.tail hallowed hvalid
    rw [cons_append]
    unfold tagFields
    cases hemit : call.emit with
    | missing =>
      rw [hemit] at hdepth htail hvalid'
      exact ih s.null hvalid' htail hdepth hflat.2
    | field f =>
      rw [hemit] at hdepth htail hvalid'
      have hrest := ih s.next hvalid' htail hdepth hflat.2
      have hrest : s.top.idLast + s.top.nullTotal + 1 + idsOf (tagFields 0 (unread ++ calls)) < _ := hrest
      have hids : idsOf ((s.top.nullTotal, f) :: tagFields 0 (unread ++ calls))
          = s.top.nullTotal + 1 + idsOf (tagFields 0 (unread ++ calls)) := sum_cons
      dsimp only
      omega
    | opens | list =>
      rw [hemit] at hcall
      cases hcall
    | closes typeMap =>
      rw [hemit] at hdepth
      cases hdepth

/-! ### Containers -/

theorem emitted_append (rest : List UInt8) (first second : List PckWriteCall) (s : PackTagStack) :
    (emitted rest (s.after first) second).length ≤ (emitted rest s (first ++ second)).length := by
  induction first generalizing s with
  | nil => exact le_rfl
  | cons call first ih =>
    rw [cons_append, emitted_cons, length_append]
    exact (ih _).trans (Nat.le_add_left _ _)

/-- **The first end of an inner container** comes before the next end of the
container. -/
theorem length_lt_afterTags (rest : List UInt8) (unread calls : List PckWriteCall) (s : PackTagStack)
    {depth : ℕ} (hdepth : pckDepth depth unread = some 0)
    (hcontainer : 0 < depth ∨ ∃ call ∈ unread, call.isContainer = true) :
    (emitted rest (s.after unread) calls).length ≤ (afterTags rest s (unread ++ calls)).length := by
  induction unread generalizing s depth with
  | nil =>
    cases hdepth
    obtain hpos | ⟨call, hcall, -⟩ := hcontainer
    · exact absurd hpos (lt_irrefl 0)
    · cases hcall
  | cons call unread ih =>
    unfold pckDepth at hdepth
    have hnot : call.isContainer = false →
        (0 < depth ∨ ∃ call ∈ unread, call.isContainer = true) := by
      intro hfalse
      refine hcontainer.imp_right (fun ⟨other, hother, htrue⟩ => ?_)
      obtain rfl | hother := mem_cons.mp hother
      · rw [hfalse] at htrue
        cases htrue
      · exact ⟨other, hother, htrue⟩
    have hafter : s.after (call :: unread) = (call.emit.stack s).after unread := rfl
    rw [hafter, cons_append, afterTags_cons]
    unfold PckWriteCall.isContainer at hnot
    cases hemit : call.emit with
    | missing | field =>
      rw [hemit] at hdepth hnot
      exact ih _ hdepth (hnot rfl)
    | opens typeMap =>
      rw [hemit] at hdepth
      exact ih _ hdepth (.inl (Nat.succ_pos _))
    | list | closes => exact emitted_append rest unread calls _

end Tags

/-! ## Skipping the tags -/

section Skip

variable {r r' next : PackRead} {rest : List UInt8} {id base : ℕ}

/-- What the reader knows when it has looked at the next tag. -/
def Finds (base : ℕ) (rest : List UInt8) (next : PackRead) : List (ℕ × PckField) → Prop
  | [] => next.tagNextId = UINT_MAX ∧ next.bytes = rest
  | field :: fields =>
    next.tagNextId = u32 (field.1 + u32 (base + 1)) ∧
      next.tagNextSize = field.2.data.length ∧
      next.bytes = field.2.data ++ (tagsBytes fields ++ 0 :: rest)

/-- The type and the value in the next tag. -/
def Knows (next : PackRead) : List (ℕ × PckField) → Prop
  | [] => True
  | field :: _ => next.tagNextTypeMap = some field.2.typeMap ∧ next.tagNextValue = field.2.value

theorem pckReadTagNext_finds (raw : PackRead) (fields : List (ℕ × PckField))
    (hfits : ∀ field ∈ fields, FieldFits field) (hbytes : raw.bytes = tagsBytes fields ++ 0 :: rest) :
    ∃ found next, pckReadTagNext raw = .ok (found, next) ∧ next.tagStack = raw.tagStack ∧
      Finds raw.tagStack.top.idLast rest next fields ∧ Knows next fields := by
  cases fields with
  | nil =>
    have hread := pckReadTagNext_end raw rest
    rw [show 0 :: rest = raw.bytes from hbytes.symm] at hread
    exact ⟨false, _, hread, rfl, ⟨rfl, rfl⟩, trivial⟩
  | cons field fields =>
    obtain ⟨nullTotal, f⟩ := field
    obtain ⟨hfield, hlt⟩ := hfits _ mem_cons_self
    have hread := pckReadTagNext_tag raw nullTotal f.data.length hfield.value hlt hfield.data_lt
      (fun h => by rw [hfield.data_nil h]; rfl) (f.data ++ (tagsBytes fields ++ 0 :: rest))
    have hbytes : raw.bytes = tagBytes f.typeMap nullTotal f.value ++
        (varIntIf (sizeFollows f.typeMap f.value) f.data.length ++
          (f.data ++ (tagsBytes fields ++ 0 :: rest))) := by
      rw [hbytes, tagsBytes_cons]
      unfold PckField.bytes
      simp only [append_assoc]
    rw [← hbytes] at hread
    exact ⟨true, _, hread, rfl, ⟨rfl, rfl, rfl⟩, rfl, rfl⟩

theorem pckReadConsumeBuffer_ok {data : List UInt8} (hsize : r.tagNextSize = data.length)
    (hbytes : r.bytes = data ++ rest) :
    pckReadConsumeBuffer r = .ok { r with bytes := rest, tagNextSize := 0 } := by
  have hcat : ∀ (read : List UInt8) (result : Unit) (chunk : List UInt8), True →
      (read ++ chunk).length ≤ data.length →
      ∃ result', (fun _ _ => .ok () : Unit → List UInt8 → Except Error Unit) result chunk = .ok result' ∧
        True := fun _ _ _ _ _ => ⟨(), rfl, trivial⟩
  obtain ⟨result, hread, -⟩ := pckReadChunks_ok (fun _ _ => True) data.length hcat data.length r rest
    data [] () trivial le_rfl le_rfl
  rw [← hbytes, ← hsize] at hread
  unfold pckReadConsumeBuffer
  rw [hread, ok_bind]

variable {fields : List (ℕ × PckField)}

/-- **One turn** that does not find the id skips a field with its data. -/
theorem pckReadTagLoop_turn {field : ℕ × PckField} (fuel : ℕ)
    (hlook : pckReadTagLook r = .ok next) (hfinds : Finds base rest next (field :: fields))
    (hfits : ∀ field ∈ fields, FieldFits field) (hlater : next.tagNextId < id) :
    ∃ r₁ next₁, pckReadTagLoop none id (fuel + 1) r = pckReadTagLoop none id fuel r₁ ∧
      pckReadTagLook r₁ = .ok next₁ ∧ next₁.tagStack.below = next.tagStack.below ∧
      Finds next.tagNextId rest next₁ fields := by
  obtain ⟨-, hsize, hbytes⟩ := hfinds
  have hconsume := pckReadConsumeBuffer_ok hsize hbytes
  obtain ⟨r₁, hr₁⟩ : ∃ r₁ : PackRead, r₁ =
      { ({ next with bytes := tagsBytes fields ++ 0 :: rest, tagNextSize := 0 } : PackRead).setIdLast
          next.tagNextId with tagNextId := 0 } := ⟨_, rfl⟩
  have hbelow : r₁.tagStack.below = next.tagStack.below := by rw [hr₁]; rfl
  have hlast : r₁.tagStack.top.idLast = next.tagNextId := by rw [hr₁]; rfl
  have hzero : r₁.tagNextId = 0 := by rw [hr₁]
  obtain ⟨found, next₁, hnext, hstack, hfinds₁, -⟩ :=
    pckReadTagNext_finds r₁ fields hfits (by rw [hr₁]; rfl)
  rw [hlast] at hfinds₁
  refine ⟨r₁, next₁, ?_, ?_, (congrArg PackTagStack.below hstack).trans hbelow, hfinds₁⟩
  · rw [pckReadTagLoop, hlook, ok_bind, if_neg (by omega), if_neg (by omega), hconsume, ok_bind, hr₁]
  · unfold pckReadTagLook
    rw [if_pos hzero, hnext]
    rfl

theorem pckReadTagLoop_found (fuel : ℕ) (hlook : pckReadTagLook r = .ok next)
    (hle : id ≤ next.tagNextId) : pckReadTagLoop none id (fuel + 1) r = .ok next := by
  unfold pckReadTagLoop
  rw [hlook, ok_bind]
  by_cases hlt : id < next.tagNextId
  · rw [if_pos hlt]
  · rw [if_neg hlt, if_pos (by omega)]
    rfl

section

variable (fields : List (ℕ × PckField)) (fuel : ℕ) (hfits : ∀ field ∈ fields, FieldFits field)
  (hid : id < UINT_MAX) (hlook : pckReadTagLook r = .ok next) (hfinds : Finds base rest next fields)
include hfits hid hlook hfinds

/-- **Skipping does not pass the first end.** -/
theorem pckReadTagLoop_stops (h : pckReadTagLoop none id fuel r = .ok r') :
    rest.length ≤ r'.bytes.length := by
  induction fields generalizing base r next fuel with
  | nil =>
    cases fuel with
    | zero => cases h
    | succ fuel =>
      obtain ⟨hnext, hbytes⟩ := hfinds
      rw [pckReadTagLoop_found fuel hlook (by omega)] at h
      cases h
      rw [hbytes]
  | cons field fields ih =>
    cases fuel with
    | zero => cases h
    | succ fuel =>
      by_cases hle : id ≤ next.tagNextId
      · rw [pckReadTagLoop_found fuel hlook hle] at h
        cases h
        rw [hfinds.2.2, length_append, length_append, length_cons]
        omega
      · have hfits := (forall_mem_cons.mp hfits).2
        obtain ⟨r₁, next₁, hturn, hlook₁, -, hfinds₁⟩ :=
          pckReadTagLoop_turn fuel hlook hfinds hfits (not_le.mp hle)
        rw [hturn] at h
        exact ih fuel hfits hlook₁ hfinds₁ h

/-- **Skipping reaches the end** when all ids are smaller. -/
theorem pckReadTagLoop_skips (hids : base + idsOf fields < id) (hfuel : fields.length < fuel) :
    ∃ r', pckReadTagLoop none id fuel r = .ok r' ∧ r'.bytes = rest ∧
      r'.tagStack.below = next.tagStack.below := by
  obtain ⟨fuel, rfl⟩ := Nat.exists_eq_succ_of_ne_zero (Nat.ne_of_gt (Nat.zero_lt_of_lt hfuel))
  induction fields generalizing base r next fuel with
  | nil =>
    obtain ⟨hnext, hbytes⟩ := hfinds
    exact ⟨next, pckReadTagLoop_found fuel hlook (by omega), hbytes, rfl⟩
  | cons field fields ih =>
    have hsum : idsOf (field :: fields) = field.1 + 1 + idsOf fields := sum_cons
    have hmax : UINT_MAX < 2 ^ 32 := by decide
    have hnext : next.tagNextId = base + 1 + field.1 := by
      rw [hfinds.1, u32_of_lt (n := base + 1) (by omega), Nat.add_comm field.1, u32_of_lt (by omega)]
    have hfits := (forall_mem_cons.mp hfits).2
    rw [length_cons] at hfuel
    obtain ⟨fuel, rfl⟩ := Nat.exists_eq_succ_of_ne_zero (show fuel ≠ 0 by omega)
    obtain ⟨r₁, next₁, hturn, hlook₁, hbelow, hfinds₁⟩ :=
      pckReadTagLoop_turn (fuel + 1) hlook hfinds hfits (show next.tagNextId < id by omega)
    have hids₁ : next.tagNextId + idsOf fields < id := by omega
    obtain ⟨r', hloop, hbytes, hbelow'⟩ := ih hfits hlook₁ hfinds₁ hids₁ fuel (by omega)
    exact ⟨r', hturn.trans hloop, hbytes, hbelow'.trans hbelow⟩

end

theorem Finds.setIdLast (h : Finds base rest next fields) (idLast : ℕ) :
    Finds base rest (next.setIdLast idLast) fields := by
  cases fields with
  | nil => exact h
  | cons field fields => exact h

theorem length_le_tagsBytes (fields : List (ℕ × PckField)) : fields.length ≤ (tagsBytes fields).length := by
  induction fields with
  | nil => exact le_rfl
  | cons field fields ih =>
    have hpos : 0 < (field.2.bytes field.1).length := Nat.succ_pos _
    rw [tagsBytes_cons, length_append, length_cons]
    omega

theorem Finds.length_le (h : Finds base rest next fields) :
    fields.length ≤ next.bytes.length := by
  cases fields with
  | nil => exact Nat.zero_le _
  | cons field fields =>
    have hle := length_le_tagsBytes fields
    rw [h.2.2, length_append, length_append, length_cons, length_cons]
    omega

/-- **What a reader that is in step finds** are the tags that were written. -/
theorem InStep.finds {s : PackTagStack} {calls : List PckWriteCall}
    (h : InStep s (emitted rest s calls) r) (hvalid : s.Valid)
    (hallowed : CallsAllowed s.containers calls) :
    ∃ next, pckReadTagLook r = .ok next ∧ next.tagStack.below = s.below ∧
      r.tagStack.top.idLast < UINT_MAX - 1 ∧
      (tagFields s.top.nullTotal calls).length ≤ r.bytes.length ∧
      Finds s.top.idLast (afterTags rest s calls) next (tagFields s.top.nullTotal calls) := by
  have hfits := tagFields_fits calls s hvalid hallowed
  have htop := hvalid.top
  rw [emitted_eq_tags] at h
  obtain ⟨raw, hbefore, hread⟩ := h
  obtain ⟨found, next, hnext, hstack, hfinds, -⟩ :=
    pckReadTagNext_finds raw (tagFields s.top.nullTotal calls) hfits hbefore.bytes
  have hlast : raw.tagStack.top.idLast = s.top.idLast := by
    rw [hbefore.tagStack]
    rfl
  have hbelow : next.tagStack.below = s.below := by
    rw [hstack, hbefore.tagStack]
    rfl
  rw [hlast] at hfinds
  obtain ⟨-, rfl⟩ | ⟨found', raw', hraw', rfl⟩ := hread
  · refine ⟨next, ?_, hbelow, by rw [hlast]; omega, ?_, hfinds⟩
    · unfold pckReadTagLook
      rw [if_pos hbefore.tagNextId, hnext]
      rfl
    · rw [hbefore.bytes, length_append]
      exact (length_le_tagsBytes _).trans (Nat.le_add_right _ _)
  · -- the reader has looked at the tag
    rw [hnext] at hraw'
    cases hraw'
    have hne : next.tagNextId ≠ 0 := by
      cases hfields : tagFields s.top.nullTotal calls with
      | nil =>
        rw [hfields] at hfinds
        rw [hfinds.1]
        decide
      | cons field fields =>
        rw [hfields] at hfinds
        have hhead := tagFields_head calls s hvalid hallowed hfields
        have hmax : UINT_MAX < 2 ^ 32 := by decide
        rw [hfinds.1, u32_of_lt (n := s.top.idLast + 1) (by omega), u32_of_lt (by omega)]
        omega
    exact ⟨_, if_neg hne, hbelow, htop, hfinds.length_le, hfinds.setIdLast _⟩

end Skip

/-! ## Ending a container -/

/-- A container that is ended: an array, an object or the pack itself. -/
inductive PckContainer
  | array
  | obj
  | pack
  deriving DecidableEq, Repr

def PckContainer.readEnd (this : PackRead) : PckContainer → Except Error PackRead
  | .array => pckReadArrayEnd this
  | .obj => pckReadObjEnd this
  | .pack => pckReadEnd this

/-- The calls that write the end of the container and what follows it. -/
def PckContainer.calls (siblings : List PckWriteCall) : PckContainer → List PckWriteCall
  | .array => .arrayEnd :: siblings
  | .obj => .objEnd :: siblings
  | .pack => []

def pckReadFields (this : PackRead) : List PckReadCall → Except Error (List PckValue × PackRead)
  | [] => .ok ([], this)
  | call :: calls => do
    let (value, this) ← pckReadCall this call
    let (values, this) ← pckReadFields this calls
    .ok (value :: values, this)

/-- **Two readers have ended the container at the same place**, with the same
containers around it. The end of the pack is the last that is read. -/
structure SameEnd (container : PckContainer) (r r' : PackRead) : Prop where
  bytes : r.bytes = r'.bytes
  tagStack : container ≠ .pack → r.tagStack = r'.tagStack
  tagNextId : container ≠ .pack → r.tagNextId = 0 ∧ r'.tagNextId = 0

section End

variable {s t : PackTagStack} {r r' : PackRead} {rest : List UInt8}

/-- The containers are the same, up to the ids of the innermost one. -/
def SameContainers (s t : PackTagStack) : Prop := s.below = t.below ∧ s.top.typeMap = t.top.typeMap

theorem SameContainers.pop (h : SameContainers s t) :
    SameContainers (pckTagStackPop s) (pckTagStackPop t) := by
  unfold pckTagStackPop
  rw [h.1]
  cases hbelow : t.below with
  | nil => exact h
  | cons item below => exact ⟨rfl, rfl⟩

theorem SameContainers.pops (h : SameContainers s t) (depth : ℕ) :
    SameContainers (pckTagStackPop^[depth] s) (pckTagStackPop^[depth] t) := by
  induction depth generalizing s t with
  | zero => exact h
  | succ depth ih => exact ih h.pop

theorem sameContainers_after (calls : List PckWriteCall) (s : PackTagStack) {depth : ℕ}
    (hdepth : pckDepth depth calls = some 0) :
    SameContainers (s.after calls) (pckTagStackPop^[depth] s) := by
  induction calls generalizing s depth with
  | nil =>
    cases hdepth
    exact ⟨rfl, rfl⟩
  | cons call calls ih =>
    unfold pckDepth at hdepth
    have htrans : ∀ {t u v : PackTagStack}, SameContainers t u → SameContainers u v →
        SameContainers t v := fun h₁ h₂ => ⟨h₁.1.trans h₂.1, h₁.2.trans h₂.2⟩
    have hnull : SameContainers s.null s := ⟨rfl, rfl⟩
    have hnext : SameContainers s.next s := ⟨rfl, rfl⟩
    show SameContainers ((call.emit.stack s).after calls) _
    cases hemit : call.emit with
    | missing =>
      rw [hemit] at hdepth
      exact htrans (ih s.null hdepth) (hnull.pops depth)
    | field | list =>
      rw [hemit] at hdepth
      exact htrans (ih s.next hdepth) (hnext.pops depth)
    | opens typeMap =>
      rw [hemit] at hdepth
      exact htrans (ih _ hdepth) (hnext.pops depth)
    | closes typeMap =>
      rw [hemit] at hdepth
      cases depth with
      | zero => cases hdepth
      | succ depth => exact ih _ hdepth

theorem emitted_rest (rest : List UInt8) (calls : List PckWriteCall) (s : PackTagStack) :
    emitted [] s calls ++ rest = emitted rest s calls := by
  induction calls generalizing s with
  | nil => rfl
  | cons call calls ih => rw [emitted_cons, emitted_cons, append_assoc, ih]

/-- **Reading fields** keeps the reader in step. -/
theorem pckReadFields_ok (rest : List UInt8) (calls : List (PckWriteCall × PckReadCall))
    (others : List PckWriteCall) (hcorresponds : ∀ call ∈ calls, Corresponds call.1 call.2)
    (s : PackTagStack) (r : PackRead) (hvalid : s.Valid)
    (hallowed : CallsAllowed s.containers (calls.map Prod.fst ++ others))
    (h : InStep s (emitted rest s (calls.map Prod.fst ++ others)) r) :
    ∃ r', pckReadFields r (calls.map Prod.snd)
        = .ok (calls.map (fun call => writtenValue call.1 call.2), r') ∧
      (s.after (calls.map Prod.fst)).Valid ∧
      CallsAllowed (s.after (calls.map Prod.fst)).containers others ∧
      InStep (s.after (calls.map Prod.fst)) (emitted rest (s.after (calls.map Prod.fst)) others) r' := by
  induction calls generalizing s r with
  | nil => exact ⟨r, rfl, hvalid, hallowed, h⟩
  | cons call calls ih =>
    obtain ⟨after, hopen, -⟩ := id hallowed
    obtain ⟨hcalls, hvalid', -⟩ := CallsAllowed.tail hallowed hvalid
    rw [forall_mem_cons] at hcorresponds
    obtain ⟨r₁, hread₁, hstep₁⟩ := pckReadCall_ok hcorresponds.1 hopen hvalid
      (emitted_nextTag rest _ _ hvalid' hcalls) h
    obtain ⟨r', hread, hafter⟩ := ih hcorresponds.2 _ r₁ hvalid' hcalls hstep₁
    refine ⟨r', ?_, hafter⟩
    show (pckReadCall r call.2 >>= _) = _
    rw [hread₁, ok_bind]
    dsimp only
    rw [hread, ok_bind]
    rfl

/-- The containers allow the end. -/
def PckContainer.Open (s : PackTagStack) : PckContainer → Prop
  | .array => s.below ≠ [] ∧ s.top.typeMap = .array
  | .obj => s.below ≠ [] ∧ s.top.typeMap = .obj
  | .pack => s.below = []

/-- Where the reader is after the end. -/
def PckContainer.leave (this : PackRead) : PckContainer → PackRead
  | .array | .obj => { this with tagStack := pckTagStackPop this.tagStack, tagNextId := 0 }
  | .pack => this

variable {container : PckContainer}

theorem PckContainer.Open.of_same (h : container.Open s)
    (hsame : SameContainers s t) : container.Open t := by
  obtain ⟨hbelow, htype⟩ := hsame
  cases container with
  | array | obj => exact ⟨hbelow ▸ h.1, htype ▸ h.2⟩
  | pack => exact hbelow.symm.trans h

/-- **The end of a container skips tags.** -/
theorem PckContainer.readEnd_eq (hopen : container.Open r.tagStack)
    (hlast : r.tagStack.top.idLast < UINT_MAX - 1) :
    container.readEnd r
      = (pckReadTagLoop none (UINT_MAX - 1) (r.bytes.length + 2) r).map container.leave := by
  have htag : pckReadTag r (UINT_MAX - 1) none
      = (pckReadTagLoop none (UINT_MAX - 1) (r.bytes.length + 2) r).map
          (fun this => ((UINT_MAX - 1, this.tagNextValue), this)) := by
    unfold pckReadTag pckReadTagRequest
    rw [if_neg (by decide), if_neg (by omega), ok_bind]
    rfl
  have hcheck : ∀ typeMap, r.tagStack.below ≠ [] ∧ r.tagStack.top.typeMap = typeMap →
      pckReadContainerEnd r typeMap
        = (pckReadTagLoop none (UINT_MAX - 1) (r.bytes.length + 2) r).map
            (fun this => { this with tagStack := pckTagStackPop this.tagStack, tagNextId := 0 }) := by
    intro typeMap ⟨hbelow, htype⟩
    have hcheck : pckTagStackPopCheck r.tagStack typeMap = .ok () :=
      if_neg (fun h => h.elim hbelow (fun h => h htype))
    unfold pckReadContainerEnd
    rw [hcheck, ok_bind, htag]
    cases pckReadTagLoop none (UINT_MAX - 1) (r.bytes.length + 2) r with
    | error error => rfl
    | ok result => rfl
  cases container with
  | array => exact hcheck .array hopen
  | obj => exact hcheck .obj hopen
  | pack =>
    show pckReadEnd r = _
    unfold pckReadEnd
    rw [if_neg (fun h => h hopen), htag]
    cases pckReadTagLoop none (UINT_MAX - 1) (r.bytes.length + 2) r with
    | error error => rfl
    | ok result => rfl

theorem PckContainer.open_of_allowed {siblings : List PckWriteCall}
    (h : CallsAllowed s.containers (container.calls siblings)) : container.Open s := by
  cases container with
  | array | obj =>
    obtain ⟨after, hopen, -⟩ := h
    obtain ⟨hbelow, htype, -⟩ := open?_endOf hopen
    exact ⟨hbelow, htype⟩
  | pack => exact map_eq_nil_iff.mp h

theorem tagFields_calls (nullTotal : ℕ) (siblings : List PckWriteCall) (container : PckContainer) :
    tagFields nullTotal (container.calls siblings) = [] := by
  cases container with
  | array | obj | pack => rfl

theorem emitted_calls (rest : List UInt8) (s : PackTagStack) (siblings : List PckWriteCall)
    (container : PckContainer) :
    emitted rest s (container.calls siblings) = 0 :: afterTags rest s (container.calls siblings) := by
  rw [emitted_eq_tags, tagFields_calls]
  rfl

theorem pckTagStackPop_eq (hbelow : s.below = t.below) (hne : s.below ≠ []) :
    pckTagStackPop s = pckTagStackPop t := by
  obtain ⟨item, below, hitem⟩ := exists_cons_of_ne_nil hne
  unfold pckTagStackPop
  rw [← hbelow, hitem]

section Reader

variable {container : PckContainer} {unread siblings : List PckWriteCall}

section

variable (h : InStep s (emitted rest s (unread ++ container.calls siblings)) r) (hvalid : s.Valid)
  (hallowed : CallsAllowed s.containers (unread ++ container.calls siblings))
  (hopen : container.Open s)
include h hvalid hallowed hopen

theorem InStep.readEnd_eq :
    container.readEnd r
      = (pckReadTagLoop none (UINT_MAX - 1) (r.bytes.length + 2) r).map container.leave := by
  obtain ⟨hbelow, htype⟩ := h.below (emitted_nextTag rest _ s hvalid hallowed)
  obtain ⟨next, -, -, hlast, -⟩ := h.finds hvalid hallowed
  exact PckContainer.readEnd_eq (hopen.of_same ⟨hbelow.symm, htype.symm⟩) hlast

/-- **Fields that are no containers are skipped** up to the end of the
container. -/
theorem InStep.readEnd_flat (hdepth : pckDepth 0 unread = some 0)
    (hflat : ∀ call ∈ unread, call.isContainer = false) :
    ∃ r', container.readEnd r = .ok r' ∧
      r'.bytes = afterTags rest (s.after unread) (container.calls siblings) ∧
      (container ≠ .pack → r'.tagStack = pckTagStackPop s ∧ r'.tagNextId = 0) := by
  obtain ⟨next, hlook, hbelow, -, hlength, hfinds⟩ := h.finds hvalid hallowed
  obtain ⟨r', hloop, hbytes, hbelow'⟩ := pckReadTagLoop_skips _ (r.bytes.length + 2)
    (tagFields_fits _ s hvalid hallowed) (by decide) hlook hfinds
    (idsOf_flat unread _ s hvalid hallowed hdepth hflat (fun n => tagFields_calls n siblings container))
    (by omega)
  rw [afterTags_flat rest unread _ s hdepth hflat] at hbytes
  refine ⟨container.leave r', ?_, ?_, ?_⟩
  · rw [h.readEnd_eq hvalid hallowed hopen, hloop]
    rfl
  · cases container with
    | array | obj | pack => exact hbytes
  · have hpop : s.below ≠ [] → pckTagStackPop r'.tagStack = pckTagStackPop s := fun hne =>
      pckTagStackPop_eq (hbelow'.trans hbelow) (by rwa [hbelow'.trans hbelow])
    intro hpack
    cases container with
    | array | obj => exact ⟨hpop hopen.1, rfl⟩
    | pack => exact absurd rfl hpack

/-- **With a container among the fields** the reader does not come to the end. -/
theorem InStep.readEnd_short (hdepth : pckDepth 0 unread = some 0)
    (hcontainer : ∃ call ∈ unread, call.isContainer = true) (hread : container.readEnd r = .ok r') :
    (afterTags rest (s.after unread) (container.calls siblings)).length < r'.bytes.length := by
  obtain ⟨next, hlook, -, -, -, hfinds⟩ := h.finds hvalid hallowed
  rw [h.readEnd_eq hvalid hallowed hopen] at hread
  obtain ⟨result, hloop, hread⟩ := ok_of_bind hread
  have hstops := pckReadTagLoop_stops _ _ (tagFields_fits _ s hvalid hallowed) (by decide) hlook
    hfinds hloop
  have hlength := length_lt_afterTags rest unread (container.calls siblings) s hdepth (.inr hcontainer)
  have hbytes : r'.bytes = result.bytes := by
    cases hread
    cases container with
    | array | obj | pack => rfl
  rw [emitted_calls, length_cons] at hlength
  rw [hbytes]
  omega

end

end Reader

/-- The fields after a container are read where it ended. -/
theorem readSiblings {siblings : List (PckWriteCall × PckReadCall)}
    (hcorresponds : ∀ call ∈ siblings, Corresponds call.1 call.2) (hvalid : s.Valid)
    (hallowed : CallsAllowed s.containers (container.calls (siblings.map Prod.fst)))
    (hpack : container ≠ .pack)
    (hbytes : r.bytes = afterTags rest s (container.calls (siblings.map Prod.fst)))
    (hstack : r.tagStack = pckTagStackPop s) (hid : r.tagNextId = 0) :
    ∃ last, pckReadCalls r (siblings.map Prod.snd)
        = .ok (siblings.map (fun call => writtenValue call.1 call.2), last) ∧ last.bytes = rest := by
  have hopen := PckContainer.open_of_allowed hallowed
  have hpop : CallsAllowed (pckTagStackPop s).containers (siblings.map Prod.fst) ∧
      s.below ≠ [] ∧ r.bytes = emitted rest (pckTagStackPop s) (siblings.map Prod.fst) := by
    cases container with
    | array | obj => exact ⟨(CallsAllowed.tail hallowed hvalid).1, hopen.1, hbytes⟩
    | pack => exact absurd rfl hpack
  obtain ⟨hsiblings, hne, hbytes⟩ := hpop
  have hnull : (pckTagStackPop s).top.nullTotal = 0 := by
    obtain ⟨item, below, hitem⟩ := exists_cons_of_ne_nil hne
    unfold pckTagStackPop
    rw [hitem]
    exact (hvalid.below item (by rw [hitem]; exact mem_cons_self)).1
  exact pckReadCalls_ok rest siblings hcorresponds _ r hvalid.pop hsiblings
    (inStep_of_before hid hstack hnull hbytes)

/-- **The end of a container skips what was not read, if these fields are no
containers.** The pack is any that can be written, the fields before the end
are read up to any field of the container. Reading its end then leaves the
reader where it is after the container was read completely, and the fields
after it are read as they were written, if and only if no array, object or
list of strings is left unread. -/
theorem pckReadFields_readEnd (write read : Option ℕ+) (rest : List UInt8) (container : PckContainer)
    (fields unread siblings : List (PckWriteCall × PckReadCall))
    (hfields : ∀ call ∈ fields, Corresponds call.1 call.2)
    (hunread : ∀ call ∈ unread, Corresponds call.1 call.2)
    (hsiblings : ∀ call ∈ siblings, Corresponds call.1 call.2)
    (hallowed : CallsAllowed ((.obj, 0), [])
      (fields.map Prod.fst ++ (unread.map Prod.fst ++ container.calls (siblings.map Prod.fst))))
    (hdepth : pckDepth 0 (unread.map Prod.fst) = some 0) :
    ∃ w r last full, pckWriteCalls (pckWriteNew write)
        (fields.map Prod.fst ++ (unread.map Prod.fst ++ container.calls (siblings.map Prod.fst))) = .ok w ∧
      pckReadFields (pckReadNew read (pckWriteResult w ++ rest)) (fields.map Prod.snd)
        = .ok (fields.map (fun call => writtenValue call.1 call.2), r) ∧
      pckReadFields r (unread.map Prod.snd)
        = .ok (unread.map (fun call => writtenValue call.1 call.2), last) ∧
      container.readEnd last = .ok full ∧
      ((∃ r', container.readEnd r = .ok r' ∧ SameEnd container r' full ∧
          (container ≠ .pack → ∃ final, pckReadCalls r' (siblings.map Prod.snd)
            = .ok (siblings.map (fun call => writtenValue call.1 call.2), final) ∧
              final.bytes = rest)) ↔
        ∀ call ∈ unread, call.1.isContainer = false) := by
  obtain ⟨w, hwrite, hresult⟩ := pckWriteCalls_ok _ (pckWriteNew write) (fun _ => rfl) hallowed
  have hvalid : PackTagStack.bottom.Valid :=
    ⟨by show 0 + 0 < UINT_MAX - 1; decide, fun item hitem => absurd hitem not_mem_nil⟩
  have hstart : InStep .bottom (emitted rest .bottom (fields.map Prod.fst ++
      (unread.map Prod.fst ++ container.calls (siblings.map Prod.fst))))
      (pckReadNew read (pckWriteResult w ++ rest)) := by
    refine inStep_of_before rfl rfl rfl ?_
    show pckWriteResult w ++ rest = _
    rw [hresult, ← emitted_rest rest]
    rfl
  -- the fields that are read
  obtain ⟨r, hread, hvalid, hallowed, hstep⟩ :=
    pckReadFields_ok rest fields _ hfields .bottom _ hvalid hallowed hstart
  generalize PackTagStack.bottom.after (fields.map Prod.fst) = s at hvalid hallowed hstep
  -- the container is read completely
  obtain ⟨last, hlast, hvalid', hallowed', hstep'⟩ :=
    pckReadFields_ok rest unread _ hunread s r hvalid hallowed hstep
  have hopen' := PckContainer.open_of_allowed hallowed'
  have hstep'' : InStep (s.after (unread.map Prod.fst)) (emitted rest (s.after (unread.map Prod.fst))
      ([] ++ container.calls (siblings.map Prod.fst))) last := hstep'
  obtain ⟨full, hfull, hbytes, hstack⟩ := hstep''.readEnd_flat hvalid' hallowed' hopen' rfl
    (fun call hcall => absurd hcall not_mem_nil)
  have hsame : SameContainers (s.after (unread.map Prod.fst)) s := sameContainers_after _ s hdepth
  have hopen := hopen'.of_same hsame
  refine ⟨w, r, last, full, hwrite, hread, hlast, hfull, ?_, fun hflat => ?_⟩
  · rintro ⟨r', hend, hsameEnd, -⟩
    by_contra hnot
    push Not at hnot
    obtain ⟨call, hcall, hcontainer⟩ := hnot
    have hcontainer : ∃ call ∈ unread.map Prod.fst, call.isContainer = true :=
      ⟨call.1, mem_map_of_mem hcall, Bool.eq_true_of_not_eq_false hcontainer⟩
    have hlt := hstep.readEnd_short hvalid hallowed hopen hdepth hcontainer hend
    rw [hsameEnd.bytes, hbytes] at hlt
    exact lt_irrefl _ hlt
  · have hflat : ∀ call ∈ unread.map Prod.fst, call.isContainer = false := by
      intro call hcall
      obtain ⟨pair, hpair, rfl⟩ := mem_map.mp hcall
      exact hflat pair hpair
    obtain ⟨r', hend, hbytes', hstack'⟩ := hstep.readEnd_flat hvalid hallowed hopen hdepth hflat
    have hpop : container ≠ .pack → pckTagStackPop s = pckTagStackPop (s.after (unread.map Prod.fst)) := by
      intro hpack
      refine pckTagStackPop_eq hsame.1.symm ?_
      cases container with
      | array => exact hopen.1
      | obj => exact hopen.1
      | pack => exact absurd rfl hpack
    refine ⟨r', hend, ⟨hbytes'.trans hbytes.symm, fun hpack => ?_, fun hpack => ?_⟩, fun hpack => ?_⟩
    · exact ((hstack' hpack).1.trans (hpop hpack)).trans (hstack hpack).1.symm
    · exact ⟨(hstack' hpack).2, (hstack hpack).2⟩
    · exact readSiblings hsiblings hvalid' hallowed' hpack hbytes'
        ((hstack' hpack).1.trans (hpop hpack)) (hstack' hpack).2

/-- An array of which two fields are left unread, before another field. -/
theorem pckReadFields_readEnd_sample :
    ∃ w r r', pckWriteCalls (pckWriteNew none)
        [.arrayBegin, .u64 1 false 0, .null, .bool true false 0, .i32 (-5) false 0, .arrayEnd,
          .u64 77 false 0] = .ok w ∧
      pckReadFields (pckReadNew (some 3) (pckWriteResult w)) [.arrayBegin, .u64 0] = .ok ([.void, .u64 1], r) ∧
      pckReadArrayEnd r = .ok r' ∧
      ∃ final, pckReadCalls r' [.u64 0] = .ok ([.u64 77], final) ∧ final.bytes = [] := by
  have hallowed : CallsAllowed ((.obj, 0), [])
      [.arrayBegin, .u64 1 false 0, .null, .bool true false 0, .i32 (-5) false 0, .arrayEnd,
        .u64 77 false 0] := ⟨_, rfl, _, rfl, _, rfl, _, rfl, _, rfl, _, rfl, _, rfl, rfl⟩
  obtain ⟨w, r, last, full, hwrite, hread, -, -, hiff⟩ :=
    pckReadFields_readEnd none (some 3) [] .array [(.arrayBegin, .arrayBegin), (.u64 1 false 0, .u64 0)]
      [(.null, .null), (.bool true false 0, .bool 0), (.i32 (-5) false 0, .i32 0)]
      [(.u64 77 false 0, .u64 0)] (by simp [Corresponds]) (by simp [Corresponds, PckReadCall.isField])
      (by simp [Corresponds]) hallowed rfl
  obtain ⟨r', hend, -, hsiblings⟩ := hiff.mpr (by decide +kernel)
  rw [append_nil] at hread
  exact ⟨w, r, r', hwrite, hread, hend, hsiblings nofun⟩

/-- An array in an array is not skipped: the end of the outer array is found
where the inner one ends, and the field after it is missing. -/
theorem pckReadFields_readEnd_fail :
    ∃ w r r' final, pckWriteCalls (pckWriteNew none)
        [.arrayBegin, .u64 1 false 0, .arrayBegin, .u64 2 false 0, .arrayEnd, .arrayEnd, .u64 77 false 0]
          = .ok w ∧
      pckReadFields (pckReadNew none (pckWriteResult w)) [.arrayBegin, .u64 0] = .ok ([.void, .u64 1], r) ∧
      pckReadArrayEnd r = .ok r' ∧ pckReadCalls r' [.u64 0] = .ok ([.u64 0], final) ∧
      final.bytes ≠ [] :=
  ⟨_, _, _, _, rfl, rfl, rfl, rfl, by decide⟩

end End

end PgxBackup
