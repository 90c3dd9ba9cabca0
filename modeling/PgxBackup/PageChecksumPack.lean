import PgxBackup.PackId
import PgxBackup.PackReader
import PgxBackup.PageChecksum
import PgxBackup.Ranges

/-!
# The list of page errors in a pack

The ids of the objects are the blocks, so the pack holds for each of them what
lies between it and the one before. They are read back as they were written
until the end of the array, and only there it matters how large the last one
is: the end is asked for as the last id but one that there is.
-/

namespace PgxBackup

open List

/-! ## Writing -/

/-- The containers in the array of errors, after the object with this id. -/
def errorStack (idLast : ℕ) : PackTagStack := ⟨⟨.array, idLast, 0⟩, [⟨.obj, 1, 0⟩]⟩

/-- The containers behind the array of errors. -/
def errorEndStack : PackTagStack := ⟨⟨.obj, 1, 0⟩, []⟩

/-- The bytes of the objects for some blocks. -/
def errorBytes : ℕ → List ℕ → List UInt8
  | _, [] => []
  | idLast, blockNo :: blocks => tagBytes .obj (blockNo - idLast) 0 ++ 0 :: errorBytes (blockNo + 1) blocks

theorem length_le_errorBytes (idLast : ℕ) (blocks : List ℕ) : blocks.length ≤ (errorBytes idLast blocks).length := by
  induction blocks generalizing idLast with
  | nil => exact le_rfl
  | cons blockNo blocks ih =>
    have hblocks := ih (blockNo + 1)
    unfold errorBytes
    rw [length_cons, length_append, length_cons]
    omega

/-- The last id after some blocks. -/
def errorLast : ℕ → List ℕ → ℕ
  | idLast, [] => idLast
  | _, blockNo :: blocks => errorLast (blockNo + 1) blocks

/-- Blocks that can be written after this id: they ascend, and their ids are
numbers of 32 bits. -/
structure ErrorsFit (idLast : ℕ) (blocks : List ℕ) : Prop where
  ascending : blocks.Pairwise (· < ·)
  after : ∀ blockNo ∈ blocks, idLast ≤ blockNo
  lt : ∀ blockNo ∈ blocks, blockNo + 1 < 2 ^ 32

theorem ErrorsFit.tail {idLast blockNo : ℕ} {blocks : List ℕ} (h : ErrorsFit idLast (blockNo :: blocks)) :
    ErrorsFit (blockNo + 1) blocks :=
  ⟨(pairwise_cons.mp h.ascending).2, (pairwise_cons.mp h.ascending).1,
    fun other hmem => h.lt other (mem_cons_of_mem _ hmem)⟩

variable {idLast : ℕ} {blocks : List ℕ} {w : PackWrite} {this : PageChecksum}

theorem errorLast_lt_iff {bound : ℕ} (h : ErrorsFit idLast blocks) :
    errorLast idLast blocks < bound ↔ idLast < bound ∧ ∀ blockNo ∈ blocks, blockNo + 1 < bound := by
  induction blocks generalizing idLast with
  | nil => exact ⟨fun hlast => ⟨hlast, fun _ hmem => absurd hmem not_mem_nil⟩, And.left⟩
  | cons blockNo blocks ih =>
    have hle := h.after blockNo mem_cons_self
    show errorLast (blockNo + 1) blocks < bound ↔ _
    rw [ih h.tail, forall_mem_cons]
    exact ⟨fun hlast => ⟨by omega, hlast⟩, And.right⟩

/-- **One error** is an object with its id. -/
theorem pckWriteError_ok {blockNo : ℕ} (hstack : w.tagStack = errorStack idLast)
    (hlast : idLast ≤ blockNo) (hlt : blockNo + 1 < 2 ^ 32) :
    ∃ w₁ w₂, pckWriteObjBegin w (blockNo + 1) = .ok w₁ ∧ pckWriteObjEnd w₁ = .ok w₂ ∧
      Wrote w (tagBytes .obj (blockNo - idLast) 0 ++ [0]) (errorStack (blockNo + 1)) w₂ := by
  have hid : w.tagStack.top.idLast < blockNo + 1 := by
    rw [hstack]
    exact Nat.lt_succ_of_le hlast
  have hrequest : w.tagStack.request (blockNo + 1)
      = ⟨⟨.array, idLast, blockNo - idLast⟩, [⟨.obj, 1, 0⟩]⟩ := by
    rw [hstack, PackTagStack.request_of_ne (Nat.succ_ne_zero _)]
    rfl
  have hroom : idLast + (blockNo - idLast) + 1 < 2 ^ 32 := by omega
  obtain ⟨w₁, htag, hw₁⟩ := @pckWriteTag_ok .obj 0 (w.withStack (w.tagStack.request (blockNo + 1)))
    (by rw [hrequest]; exact hroom) (containers_fits (.inr rfl))
  have hnext : w₁.tagStack = ⟨⟨.array, blockNo + 1, 0⟩, [⟨.obj, 1, 0⟩]⟩ := by
    rw [hw₁.tagStack, hrequest]
    show PackTagStack.mk ⟨.array, idLast + (blockNo - idLast) + 1, 0⟩ [⟨.obj, 1, 0⟩] = _
    rw [Nat.add_sub_of_le hlast]
  obtain ⟨w₂, hend, hw₂⟩ := @pckWriteContainerEnd_ok { w₁ with tagStack := pckTagStackPush w₁.tagStack .obj } .obj
    (cons_ne_nil _ _) rfl
  refine ⟨{ w₁ with tagStack := pckTagStackPush w₁.tagStack .obj }, w₂, ?_, hend, ?_⟩
  · unfold pckWriteObjBegin
    rw [pckWriteBegin_request (Nat.succ_ne_zero _) hid hlt]
    unfold pckWriteBegin
    rw [htag]
    rfl
  · have hbytes : (w.withStack (w.tagStack.request (blockNo + 1))).tagStack.top.nullTotal = blockNo - idLast := by
      rw [show (w.withStack (w.tagStack.request (blockNo + 1))).tagStack = w.tagStack.request (blockNo + 1) from rfl,
        hrequest]
    rw [hbytes] at hw₁
    have hpop : pckTagStackPop (pckTagStackPush w₁.tagStack .obj) = errorStack (blockNo + 1) := by
      rw [hnext]
      rfl
    have hfirst : Wrote w (tagBytes .obj (blockNo - idLast) 0) (pckTagStackPush w₁.tagStack .obj)
        { w₁ with tagStack := pckTagStackPush w₁.tagStack .obj } := ⟨hw₁.write, hw₁.output, rfl, hw₁.sent⟩
    rw [← hpop]
    exact hfirst.trans hw₂

/-- **All errors.** -/
theorem foldlM_pageChecksumError
    (hstack : w.tagStack = errorStack idLast) (hfit : ErrorsFit idLast blocks) :
    ∃ w', blocks.foldlM pageChecksumError (some w) = .ok (some w') ∧
      Wrote w (errorBytes idLast blocks) (errorStack (errorLast idLast blocks)) w' := by
  induction blocks generalizing w idLast with
  | nil => exact ⟨w, rfl, rfl, (append_nil _).symm, hstack, fun _ => rfl⟩
  | cons blockNo blocks ih =>
    have hlt := hfit.lt blockNo mem_cons_self
    obtain ⟨w₁, w₂, hbegin, hend, hw⟩ := pckWriteError_ok hstack (hfit.after blockNo mem_cons_self) hlt
    obtain ⟨w', hrest, hw'⟩ := ih hw.tagStack hfit.tail
    refine ⟨w', ?_, ?_⟩
    · have hone : pageChecksumError (some w) blockNo = .ok (some w₂) := by
        unfold pageChecksumError
        rw [u32_of_lt hlt]
        dsimp only
        rw [ok_bind, hbegin, ok_bind, hend]
        rfl
      rw [foldlM_cons, hone]
      exact hrest
    · have hbytes := hw.trans hw'
      rw [append_assoc] at hbytes
      exact hbytes

def errorPack (blocks : List ℕ) (align : Bool) : List UInt8 :=
  tagBytes .array 0 0 ++ (errorBytes 0 blocks ++
    0 :: emitted [] errorEndStack [.bool false true 0, .bool align true 0])

theorem callsAllowed_flags (valid align : Bool) {last : ℕ} (h : last ≤ 1) :
    CallsAllowed ((.obj, last), []) [.bool valid true 0, .bool align true 0] := by
  have hfirst : last + 1 < UINT_MAX - 1 := lt_of_le_of_lt (Nat.succ_le_succ h) (by decide)
  have hsecond : last + 1 + 1 < UINT_MAX - 1 := lt_of_le_of_lt (Nat.succ_le_succ (Nat.succ_le_succ h)) (by decide)
  exact ⟨((.obj, last + 1), []), if_pos hfirst, ((.obj, last + 1 + 1), []), if_pos hsecond, rfl⟩

theorem pageChecksumResult_flags {valid : Bool}
    (herror : pageChecksumErrorEnd this = .ok (w, valid)) (hsent : w.write = none → w.sent = [])
    (h : CallsAllowed w.tagStack.containers [.bool valid true 0, .bool this.align true 0]) :
    pageChecksumResult this
      = .ok (w.output ++ emitted [] w.tagStack [.bool valid true 0, .bool this.align true 0]) := by
  obtain ⟨w', hcalls, hresult⟩ := pckWriteCalls_ok _ w hsent h
  obtain ⟨w₁, hvalid, hcalls⟩ := ok_of_bind hcalls
  obtain ⟨w₂, halign, hend⟩ := ok_of_bind hcalls
  have hvalid : pckWriteBool w valid 0 true 0 = .ok w₁ := hvalid
  have halign : pckWriteBool w₁ this.align 0 true 0 = .ok w₂ := halign
  have hend : pckWriteEnd w₂ = .ok w' := hend
  unfold pageChecksumResult
  rw [herror, ok_bind]
  dsimp only
  rw [hvalid, ok_bind, halign, ok_bind, hend, ok_bind, hresult]

theorem room_new : (pckWriteNew none).tagStack.Room := by
  show 0 + 0 + 1 < 2 ^ 32 - 1 - 1
  decide

/-- **The result of a filter that found errors.** -/
theorem pageChecksumResult_errors (hne : blocks ≠ [])
    (hfit : ErrorsFit 0 blocks) (herror : blocks.foldlM pageChecksumError none = .ok this.error) :
    pageChecksumResult this = .ok (errorPack blocks this.align) := by
  obtain ⟨w₀, hbegin, hw₀⟩ := pckWriteBegin_ok room_new (.inl rfl : PackTypeMap.array = .array ∨ _)
  have hstack : w₀.tagStack = errorStack 0 := hw₀.tagStack
  obtain ⟨w₁, hall, hw₁⟩ := foldlM_pageChecksumError hstack hfit
  have hthis : this.error = some w₁ := by
    obtain ⟨blockNo, blocks, rfl⟩ := exists_cons_of_ne_nil hne
    have hfirst : pageChecksumError none blockNo = pageChecksumError (some w₀) blockNo := by
      unfold pageChecksumError pckWriteArrayBegin
      rw [hbegin]
    rw [foldlM_cons, hfirst, ← foldlM_cons, hall] at herror
    exact (Except.ok.inj herror).symm
  have hbelow : w₁.tagStack.below ≠ [] := by
    rw [hw₁.tagStack]
    exact cons_ne_nil _ _
  obtain ⟨w₂, hend, hw₂⟩ := @pckWriteContainerEnd_ok w₁ .array hbelow (by rw [hw₁.tagStack]; rfl)
  have hendStack : w₂.tagStack = errorEndStack := by
    rw [hw₂.tagStack, hw₁.tagStack]
    rfl
  have hwritten := (hw₀.trans hw₁).trans hw₂
  have herrorEnd : pageChecksumErrorEnd this = .ok (w₂, false) := by
    unfold pageChecksumErrorEnd pckWriteArrayEnd
    rw [hthis]
    dsimp only
    rw [hend, ok_bind]
  have hallowed : CallsAllowed w₂.tagStack.containers [.bool false true 0, .bool this.align true 0] := by
    rw [hendStack]
    exact callsAllowed_flags false this.align le_rfl
  have hbytes : w₂.output ++ emitted [] w₂.tagStack [.bool false true 0, .bool this.align true 0]
      = errorPack blocks this.align := by
    have hnew : (pckWriteNew none).output = [] := rfl
    have hnulls : (pckWriteNew none).tagStack.top.nullTotal = 0 := rfl
    rw [hwritten.output, hendStack, hnew, hnulls, nil_append]
    unfold errorPack
    rw [append_assoc, append_assoc, singleton_append]
  rw [pageChecksumResult_flags herrorEnd (fun _ => hwritten.sent rfl) hallowed, hbytes]

theorem pageChecksumResult_none (herror : this.error = none) :
    pageChecksumResult this = .ok (emitted [] .bottom [.null, .bool this.valid true 0, .bool this.align true 0]) := by
  have hnull := wrote_pckWriteNull room_new
  have hstack : (pckWriteNull (pckWriteNew none)).tagStack = PackTagStack.bottom.null := hnull.tagStack
  have herrorEnd : pageChecksumErrorEnd this = .ok (pckWriteNull (pckWriteNew none), this.valid) := by
    unfold pageChecksumErrorEnd
    rw [herror]
  have hallowed : CallsAllowed (pckWriteNull (pckWriteNew none)).tagStack.containers
      [.bool this.valid true 0, .bool this.align true 0] := by
    rw [hstack]
    exact callsAllowed_flags this.valid this.align le_rfl
  have hnew : (pckWriteNew none).output = [] := rfl
  rw [pageChecksumResult_flags herrorEnd (fun _ => hnull.sent rfl) hallowed, hnull.output, hstack, hnew,
    append_nil, nil_append]
  rfl

/-! ## Reading -/

section Read

variable {r : PackRead} {rest : List UInt8}

/-- **The end of a container** is asked for as the last id but one that there
is, and the reader has found the end if the last id is before. -/
theorem pckReadContainerEnd_ok {next : PackRead} {typeMap : PackTypeMap} {idLast : ℕ} {item : PackTagStackItem}
    {below : List PackTagStackItem} (hlook : pckReadTagLook r = .ok next) (hid : next.tagNextId = UINT_MAX)
    (hstack : r.tagStack = ⟨⟨typeMap, idLast, 0⟩, item :: below⟩) (hsame : next.tagStack = r.tagStack)
    (hlast : idLast < UINT_MAX - 1) :
    pckReadContainerEnd r typeMap = .ok { next with tagNextId := 0, tagStack := ⟨item, below⟩ } := by
  have hcheck : pckTagStackPopCheck r.tagStack typeMap = .ok () := by
    rw [hstack]
    exact if_neg (fun h => h.elim (cons_ne_nil _ _) (fun h => h rfl))
  have hasks : Asks r (UINT_MAX - 1) (UINT_MAX - 1) := .inr ⟨by decide, rfl, by rw [hstack]; exact hlast⟩
  have hle : UINT_MAX - 1 ≤ next.tagNextId := by
    rw [hid]
    exact Nat.sub_le _ _
  unfold pckReadContainerEnd
  rw [hcheck, ok_bind, pckReadTag_peek _ _ hlook hasks hle, ok_bind]
  dsimp only
  rw [hsame, hstack]
  rfl

theorem pckReadContainerEnd_error {typeMap : PackTypeMap} {idLast : ℕ} {item : PackTagStackItem}
    {below : List PackTagStackItem} (hstack : r.tagStack = ⟨⟨typeMap, idLast, 0⟩, item :: below⟩)
    (hlast : UINT_MAX - 1 ≤ idLast) :
    pckReadContainerEnd r typeMap = .error ⟨.formatError,
      "field ".toList ++ Nat.toDigits 10 (UINT_MAX - 1) ++ " was already read".toList⟩ := by
  have hcheck : pckTagStackPopCheck r.tagStack typeMap = .ok () := by
    rw [hstack]
    exact if_neg (fun h => h.elim (cons_ne_nil _ _) (fun h => h rfl))
  have hlast : UINT_MAX - 1 ≤ r.tagStack.top.idLast := by
    rw [hstack]
    exact hlast
  unfold pckReadContainerEnd pckReadTag pckReadTagRequest
  rw [hcheck, ok_bind, if_neg (by decide), if_pos hlast]
  rfl

/-- **One object is read back**, and the reader is before the next. -/
theorem pckReadError_ok {idLast blockNo : ℕ} (hstack : r.tagStack = errorStack idLast)
    (hbytes : r.bytes = tagBytes .obj (blockNo - idLast) 0 ++ 0 :: rest) (hlast : idLast ≤ blockNo)
    (hlt : blockNo + 1 < 2 ^ 32) :
    ∃ r₁ r₂ r₃, pckReadTagNext r = .ok (true, r₁) ∧ r₁.tagNextId = blockNo + 1 ∧
      pckReadObjBegin r₁ (blockNo + 1) = .ok r₂ ∧ pckReadObjEnd r₂ = .ok r₃ ∧
      r₃.tagStack = errorStack (blockNo + 1) ∧ r₃.bytes = rest := by
  have hidLast : r.tagStack.top.idLast = idLast := by
    rw [hstack]
    rfl
  have hsum : r.tagStack.top.idLast + 1 + (blockNo - idLast) = blockNo + 1 := by omega
  have hread := @pckReadTagNext_field .obj 0 r (blockNo - idLast) 0 (containers_fits (.inr rfl))
    (hsum.symm ▸ hlt) (by decide) (fun _ => rfl) (0 :: rest)
  have hsame : { r with bytes := tagBytes .obj (blockNo - idLast) 0 ++
      (varIntIf (sizeFollows .obj 0) 0 ++ 0 :: rest) } = r := by
    rw [show varIntIf (sizeFollows .obj 0) 0 = [] from rfl, nil_append, ← hbytes]
  rw [hsame, hsum] at hread
  generalize hr₁ : ({ r with
    bytes := 0 :: rest
    tagNextId := blockNo + 1
    tagNextTypeMap := some .obj
    tagNextValue := 0
    tagNextSize := 0 } : PackRead) = r₁ at hread
  have hlook : pckReadTagLook r₁ = .ok r₁ := if_neg (by rw [← hr₁]; exact Nat.succ_ne_zero _)
  have hasks : Asks r₁ (blockNo + 1) (blockNo + 1) := by
    refine .inr ⟨Nat.succ_ne_zero _, rfl, ?_⟩
    rw [← hr₁]
    show r.tagStack.top.idLast < blockNo + 1
    omega
  have hmatch := @pckReadTag_match r₁ r₁ (blockNo + 1) (blockNo + 1) hlook hasks .obj (by rw [← hr₁])
    (by rw [← hr₁])
  have hstack₁ : (r₁.setIdLast (blockNo + 1)).tagStack = errorStack (blockNo + 1) := by
    rw [← hr₁]
    unfold PackRead.setIdLast
    rw [hstack]
    rfl
  have hbytes₁ : (r₁.setIdLast (blockNo + 1)).bytes = 0 :: rest := by rw [← hr₁]; rfl
  generalize hr₂ : ({ r₁.setIdLast (blockNo + 1) with
    tagNextId := 0
    tagStack := pckTagStackPush (r₁.setIdLast (blockNo + 1)).tagStack .obj } : PackRead) = r₂
  have hstack₂ : r₂.tagStack = ⟨⟨.obj, 0, 0⟩, [⟨.array, blockNo + 1, 0⟩, ⟨.obj, 1, 0⟩]⟩ := by
    rw [← hr₂]
    rw [hstack₁]
    rfl
  have hread₂ := pckReadTagNext_end r₂ rest
  have hbytes₂ : r₂.bytes = 0 :: rest := by
    rw [← hr₂]
    exact hbytes₁
  rw [← hbytes₂] at hread₂
  have hlook₂ : pckReadTagLook r₂ = .ok { r₂ with bytes := rest, tagNextId := UINT_MAX } := by
    unfold pckReadTagLook
    rw [if_pos (by rw [← hr₂]), hread₂]
    rfl
  have hend := pckReadContainerEnd_ok hlook₂ rfl hstack₂ rfl (by show 0 < 2 ^ 32 - 1 - 1; decide)
  refine ⟨r₁, r₂, _, hread, by rw [← hr₁], ?_, hend, rfl, rfl⟩
  unfold pckReadObjBegin pckReadBegin
  rw [hmatch, ok_bind, ← hr₂]

/-- **All objects are read back**, whatever is done with their blocks. -/
theorem backupJobResultPageChecksumLoop_ok {idLast fuel : ℕ} {blocks : List ℕ} {range : PageRange}
    (hfit : ErrorsFit idLast blocks) (hstack : r.tagStack = errorStack idLast)
    (hbytes : r.bytes = errorBytes idLast blocks ++ 0 :: rest) (hfuel : blocks.length < fuel) :
    ∃ r', backupJobResultPageChecksumLoop fuel range r = .ok (blocks.foldl PageRange.next range, r') ∧
      r'.tagNextId = UINT_MAX ∧ r'.tagStack = errorStack (errorLast idLast blocks) ∧ r'.bytes = rest := by
  induction blocks generalizing r idLast fuel range with
  | nil =>
    obtain ⟨fuel, rfl⟩ := Nat.exists_eq_add_one.mpr hfuel
    have hread := pckReadTagNext_end r rest
    have hbytes : r.bytes = 0 :: rest := hbytes
    rw [← hbytes] at hread
    refine ⟨{ r with bytes := rest, tagNextId := UINT_MAX }, ?_, rfl, hstack, rfl⟩
    unfold backupJobResultPageChecksumLoop
    rw [hread, ok_bind]
    rfl
  | cons blockNo blocks ih =>
    obtain ⟨fuel, rfl⟩ := Nat.exists_eq_add_one.mpr (Nat.zero_lt_of_lt hfuel)
    have hlt := hfit.lt blockNo mem_cons_self
    unfold errorBytes at hbytes
    rw [append_assoc, cons_append] at hbytes
    obtain ⟨r₁, r₂, r₃, hnext, hid, hbegin, hend, hstack₃, hbytes₃⟩ :=
      pckReadError_ok hstack hbytes (hfit.after blockNo mem_cons_self) hlt
    have hfuel : blocks.length < fuel := Nat.lt_of_succ_lt_succ hfuel
    obtain ⟨r', hrest, hr'⟩ := @ih r₃ (blockNo + 1) fuel (range.next blockNo) hfit.tail hstack₃ hbytes₃ hfuel
    refine ⟨r', ?_, hr'⟩
    have hpage : u32 (r₁.tagNextId + (2 ^ 32 - 1)) = blockNo := by
      rw [hid]
      unfold u32
      omega
    unfold backupJobResultPageChecksumLoop
    rw [hnext, ok_bind]
    dsimp only
    rw [if_pos rfl, hpage, u32_of_lt hlt, hbegin, ok_bind, hend, ok_bind]
    exact hrest

/-! ## The result of the job -/

/-- A range of blocks as it is listed. -/
def rangeVariant (range : ℕ × ℕ) : Variant :=
  if range.1 = range.2 then .uint64 (UInt64.ofNat range.1)
  else .varLst [.uint64 (UInt64.ofNat range.1), .uint64 (UInt64.ofNat range.2)]

theorem backupJobResultPageChecksumOut_eq (result : List Variant) (pageBegin pageEnd : ℕ) :
    backupJobResultPageChecksumOut result pageBegin pageEnd = result ++ [rangeVariant (pageBegin, pageEnd)] := by
  unfold backupJobResultPageChecksumOut rangeVariant
  split <;> rfl

variable {blocks : List ℕ}

/-- The pages that are taken in one by one are put together in ranges. -/
theorem foldl_pageRange {pageBegin pageEnd : ℕ} {result : List Variant}
    (hlt : ∀ blockNo ∈ pageEnd :: blocks, blockNo + 1 < 2 ^ 32) :
    ∃ range, blocks.foldl PageRange.next ⟨true, pageBegin, pageEnd, result⟩ = range ∧ range.first = true ∧
      backupJobResultPageChecksumOut range.result range.pageBegin range.pageEnd
        = result ++ (Ranges.compactFrom pageBegin pageEnd blocks).map rangeVariant := by
  induction blocks generalizing pageBegin pageEnd result with
  | nil => exact ⟨_, rfl, rfl, backupJobResultPageChecksumOut_eq _ _ _⟩
  | cons blockNo blocks ih =>
    have hend : u32 (pageEnd + 1) = pageEnd + 1 := u32_of_lt (hlt pageEnd mem_cons_self)
    have hblocks : ∀ other ∈ blockNo :: blocks, other + 1 < 2 ^ 32 :=
      fun other hmem => hlt other (mem_cons_of_mem _ hmem)
    rw [foldl_cons]
    unfold Ranges.compactFrom
    by_cases hnext : blockNo = pageEnd + 1
    · have hone : PageRange.next ⟨true, pageBegin, pageEnd, result⟩ blockNo = ⟨true, pageBegin, blockNo, result⟩ := by
        unfold PageRange.next
        rw [if_neg (by simp), hend, if_pos hnext]
      rw [hone, if_pos hnext]
      exact ih hblocks
    · have hone : PageRange.next ⟨true, pageBegin, pageEnd, result⟩ blockNo
          = ⟨true, blockNo, blockNo, result ++ [rangeVariant (pageBegin, pageEnd)]⟩ := by
        unfold PageRange.next
        rw [if_neg (by simp), hend, if_neg hnext, backupJobResultPageChecksumOut_eq]
      obtain ⟨range, hfold, hfirst, hresult⟩ :=
        @ih blockNo blockNo (result ++ [rangeVariant (pageBegin, pageEnd)]) hblocks
      refine ⟨range, by rw [hone, hfold], hfirst, ?_⟩
      rw [hresult, if_neg hnext, map_cons, append_assoc]
      rfl

/-- The ranges of some blocks as they are listed. -/
def rangeVariants (blocks : List ℕ) : List Variant := (Ranges.compact blocks).map rangeVariant

theorem pageRange_result (hne : blocks ≠ []) (hlt : ∀ blockNo ∈ blocks, blockNo + 1 < 2 ^ 32) :
    ∃ range, blocks.foldl PageRange.next ⟨false, 0, 0, []⟩ = range ∧ range.first = true ∧
      backupJobResultPageChecksumOut range.result range.pageBegin range.pageEnd = rangeVariants blocks := by
  obtain ⟨blockNo, blocks, rfl⟩ := exists_cons_of_ne_nil hne
  exact foldl_pageRange hlt

/-- **The beginning of a pack with errors**: all objects are read, and the end
of the array is still to be read. -/
theorem pckReadErrors_ok (hfit : ErrorsFit 0 blocks) (align : Bool) :
    ∃ r₁ r₂ r₃, pckReadNull (pckReadNew none (errorPack blocks align)) 0 = .ok (false, r₁) ∧
      pckReadArrayBegin r₁ 0 = .ok r₂ ∧
      backupJobResultPageChecksumLoop (r₂.bytes.length + 1) ⟨false, 0, 0, []⟩ r₂
        = .ok (blocks.foldl PageRange.next ⟨false, 0, 0, []⟩, r₃) ∧
      r₃.tagNextId = UINT_MAX ∧ r₃.tagStack = errorStack (errorLast 0 blocks) ∧
      r₃.bytes = emitted [] errorEndStack [.bool false true 0, .bool align true 0] := by
  have hroom : PackTagStack.bottom.Room := room_new
  have hstep : InStep .bottom (errorPack blocks align) (pckReadNew none (errorPack blocks align)) :=
    inStep_of_before rfl rfl rfl rfl
  have hnext := @nextTag_begin .bottom .array (.inl rfl) hroom
    (errorBytes 0 blocks ++ 0 :: emitted [] errorEndStack [.bool false true 0, .bool align true 0])
  obtain ⟨r₁, -, hnull, hstep₁, -⟩ := hstep.present hroom hnext
  obtain ⟨-, r₂, -, -, -, htag, hid, hstack, -, hbytes⟩ := hstep₁.present hroom hnext
  generalize hr : ({ r₂ with tagStack := pckTagStackPush r₂.tagStack .array } : PackRead) = r₃
  have hstack₃ : r₃.tagStack = errorStack 0 := by
    rw [← hr]
    rw [hstack]
    rfl
  have hbytes₃ : r₃.bytes = errorBytes 0 blocks ++
      0 :: emitted [] errorEndStack [.bool false true 0, .bool align true 0] := by
    rw [← hr]
    exact hbytes
  have hfuel : blocks.length < r₃.bytes.length + 1 := by
    have := length_le_errorBytes 0 blocks
    rw [hbytes₃, length_append]
    omega
  obtain ⟨r₄, hloop, hr₄⟩ :=
    @backupJobResultPageChecksumLoop_ok r₃ _ 0 _ blocks ⟨false, 0, 0, []⟩ hfit hstack₃ hbytes₃ hfuel
  refine ⟨r₁, r₃, r₄, ?_, ?_, hloop, hr₄⟩
  · unfold pckReadNull
    rw [hnull, ok_bind]
  · unfold pckReadArrayBegin pckReadBegin
    rw [htag, ok_bind, ← hr]

theorem Reading.flags {valid align : Bool} (h : Reading [.bool valid true 0, .bool align true 0] r) :
    ∃ r₁ r₂, pckReadBool r 0 0 = .ok (valid, r₁) ∧ pckReadBool r₁ 0 0 = .ok (align, r₂) := by
  obtain ⟨r₁, hvalid, h₁⟩ := h.one (.bool 0) rfl
  obtain ⟨r₂, halign, -⟩ := h₁.one (.bool 0) rfl
  exact ⟨r₁, r₂, pckValue_ok (fun _ _ => PckValue.bool.inj) hvalid, pckValue_ok (fun _ _ => PckValue.bool.inj) halign⟩

/-- **What a filter that found errors reported is taken over**, if the ids are
before the last one that is asked for. -/
theorem backupJobResultPage_errors (hne : blocks ≠ []) (hfit : ErrorsFit 0 blocks)
    (hlast : errorLast 0 blocks < UINT_MAX - 1) (align : Bool) :
    backupJobResultPage (pckReadNew none (errorPack blocks align))
      = .ok (true, if align then some (rangeVariants blocks) else none) := by
  obtain ⟨r₁, r₂, r₃, hnull, hbegin, hloop, hid, hstack, hbytes⟩ := pckReadErrors_ok hfit align
  obtain ⟨range, hrange, hfirst, hresult⟩ := pageRange_result hne hfit.lt
  have hlook : pckReadTagLook r₃ = .ok r₃ := if_neg (by rw [hid]; decide)
  have hend := pckReadContainerEnd_ok hlook hid hstack rfl hlast
  have hchecksum : backupJobResultPageChecksum (pckReadNew none (errorPack blocks align))
      = .ok (some (rangeVariants blocks), { r₃ with tagNextId := 0, tagStack := errorEndStack }) := by
    unfold backupJobResultPageChecksum
    rw [hnull, ok_bind]
    dsimp only
    rw [if_neg (by simp), hbegin, ok_bind, hloop, ok_bind, hrange]
    rw [hfirst]
    show (pckReadContainerEnd r₃ .array >>= _) = _
    rw [hend, ok_bind, hresult]
    rfl
  have hreading : Reading [.bool false true 0, .bool align true 0]
      { r₃ with tagNextId := 0, tagStack := errorEndStack } := by
    refine ⟨errorEndStack, ⟨by show 1 + 0 < 2 ^ 32 - 1 - 1; decide, nofun⟩, callsAllowed_flags false align le_rfl, ?_⟩
    exact inStep_of_before rfl rfl rfl hbytes
  obtain ⟨r₄, r₅, hvalid, halign⟩ := hreading.flags
  unfold backupJobResultPage
  rw [hchecksum, ok_bind]
  dsimp only
  rw [hvalid, ok_bind]
  rw [if_neg (by simp), halign, ok_bind]
  cases align with
  | false => rfl
  | true =>
    have hlist : rangeVariants blocks ≠ [] := by
      unfold rangeVariants
      rw [Ne, map_eq_nil_iff, Ranges.compact_eq_nil]
      exact hne
    have hsome : (!((some (rangeVariants blocks)).getD []).isEmpty) = true := by
      rw [Option.getD_some, Bool.not_eq_true', isEmpty_eq_false_iff]
      exact hlist
    rw [if_pos rfl, if_pos rfl, hsome]
    rfl

/-- **What a filter that found errors reported is not taken over** if one of
the ids is too large. -/
theorem backupJobResultPage_error (hne : blocks ≠ []) (hfit : ErrorsFit 0 blocks)
    (hlast : UINT_MAX - 1 ≤ errorLast 0 blocks) (align : Bool) :
    backupJobResultPage (pckReadNew none (errorPack blocks align)) = .error ⟨.formatError,
      "field ".toList ++ Nat.toDigits 10 (UINT_MAX - 1) ++ " was already read".toList⟩ := by
  obtain ⟨r₁, r₂, r₃, hnull, hbegin, hloop, hid, hstack, hbytes⟩ := pckReadErrors_ok hfit align
  obtain ⟨range, hrange, hfirst, hresult⟩ := pageRange_result hne hfit.lt
  have hend := @pckReadContainerEnd_error r₃ _ _ _ _ hstack hlast
  unfold backupJobResultPage backupJobResultPageChecksum
  rw [hnull, ok_bind]
  dsimp only
  rw [if_neg (by simp), hbegin, ok_bind, hloop, ok_bind, hrange]
  rw [hfirst]
  show ((pckReadContainerEnd r₃ .array >>= _) >>= _) = _
  rw [hend]
  rfl

theorem backupJobResultPage_none {valid align : Bool} (h : valid = false → align = false) :
    backupJobResultPage (pckReadNew none (emitted [] .bottom [.null, .bool valid true 0, .bool align true 0]))
      = .ok (!valid, none) := by
  have hreading : Reading [.null, .bool valid true 0, .bool align true 0]
      (pckReadNew none (emitted [] .bottom [.null, .bool valid true 0, .bool align true 0])) := by
    refine ⟨.bottom, ⟨by show 0 + 0 < 2 ^ 32 - 1 - 1; decide, nofun⟩, ⟨((.obj, 1), []), rfl, ?_⟩,
      inStep_of_before rfl rfl rfl rfl⟩
    exact callsAllowed_flags valid align le_rfl
  obtain ⟨r₁, hnull, hreading₁⟩ := hreading.null
  obtain ⟨r₂, r₃, hvalid, halign⟩ := hreading₁.flags
  unfold backupJobResultPage backupJobResultPageChecksum
  rw [hnull, ok_bind]
  show (pckReadBool r₁ 0 0 >>= _) = _
  rw [hvalid, ok_bind]
  cases valid with
  | true => rfl
  | false =>
    show (pckReadBool r₂ 0 0 >>= _) = _
    rw [halign, ok_bind, h rfl]
    rfl

end Read

end PgxBackup
