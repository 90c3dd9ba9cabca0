import PgxBackup.FilterGroup
import PgxBackup.VarInt

/-!
# Reading from a driver with short reads

An `IoRead` without filters passes what its driver returns through the buffer
filter. The driver may return fewer bytes than fit the input buffer, or none,
at every read. What was read but not asked for yet waits in the input buffer
and in the internal output buffer. No byte is lost and none is handed out
twice: `ioReadSmall` returns the next bytes of the stream, as many as were
asked for or all that are left.
-/

namespace PgxBackup

open List

/-- `IoRead` without filters. -/
structure IoReadState where
  /-- Does the driver fill the input buffer unless it is at its end? -/
  block : Bool
  /-- Size of the input buffer and of the internal output buffer. -/
  bufferSize : ℕ+
  /-- What the reads of the driver will return. It is at its end after them. -/
  driver : List Bytes
  /-- The input buffer, `NULL` after the end of the driver. -/
  input : Option Bytes
  /-- The buffer filter. -/
  filter : IoBuffer
  /-- Was the filter flushed? -/
  flushing : Bool
  /-- Are driver and filter at their end? -/
  eofAll : Bool
  /-- What the internal output buffer holds from the current position on. -/
  output : Bytes
  deriving DecidableEq

/-- `ioReadNew` and `ioReadOpen`. -/
def ioReadNew (block : Bool) (bufferSize : ℕ+) (driver : List Bytes) : IoReadState :=
  ⟨block, bufferSize, driver, some [], ⟨0, false⟩, false, false, []⟩

/-- A read of the driver into a buffer with room for a number of bytes. -/
def driverRead (remains : ℕ) : List Bytes → Bytes × List Bytes
  | [] => ([], [])
  | chunk :: chunks =>
    if chunk.length ≤ remains then (chunk, chunks)
    else (chunk.take remains, chunk.drop remains :: chunks)

namespace IoReadState

/-- `ioReadEofDriver`. -/
def eofDriver (this : IoReadState) : Bool := this.driver.isEmpty

/-- `ioFilterGroupDone`. -/
def done (this : IoReadState) : Bool := this.flushing && !this.filter.inputSame

/-- `ioFilterGroupProcess` for the buffer filter, which is only passed data. -/
def process (this : IoReadState) (buffer : FilterBuffer) : IoReadState × FilterBuffer :=
  match this.input with
  | none => ({ this with flushing := true }, buffer)
  | some input =>
    let (filter, data) := ioBufferProcess this.filter (some input) buffer
    ({ this with filter := filter }, buffer.cat data)

/-- Read new input, or set it to `NULL` at the end of the driver. A driver that
blocks is not asked for more than fits the output buffer. -/
def readInput (this : IoReadState) (buffer : FilterBuffer) : IoReadState :=
  if this.input.isNone then this
  else if this.eofDriver then { this with input := none }
  else
    let remains := if this.block then min (this.bufferSize : ℕ) buffer.remains else this.bufferSize
    let (input, driver) := driverRead remains this.driver
    { this with input := some input, driver := driver }

/-- `eofAll` at the end of a turn. -/
def setEof (this : IoReadState) : IoReadState :=
  { this with eofAll := this.eofDriver && this.done }

/-- The loop of `ioReadInternal`, for a buffer that had used some bytes when it
began. -/
def readLoop (block : Bool) (usedBegin : ℕ) :
    ℕ → IoReadState → FilterBuffer → IoReadState × FilterBuffer
  | 0, this, buffer => (this, buffer)
  | fuel + 1, this, buffer =>
    if this.eofAll || buffer.isFull then (this, buffer)
    else if this.filter.inputSame then
      -- the same input again to get more output
      let (this, buffer) := this.process buffer
      readLoop block usedBegin fuel this.setEof buffer
    else
      let this := this.readInput buffer
      let (this, buffer) := if this.input = some [] then (this, buffer) else this.process buffer
      if !block && decide (buffer.data.length > usedBegin) then (this, buffer)
      else readLoop block usedBegin fuel this.setEof buffer

/-- Turns that the loop needs at most: one for the input that is left, one for
each byte and each read of the driver, one for the flush and a last one. -/
def turns (this : IoReadState) : ℕ := (this.driver.map (fun chunk => chunk.length + 1)).sum + 3

/-- `ioReadInternal`. -/
def ioReadInternal (this : IoReadState) (buffer : FilterBuffer) (block : Bool) :
    IoReadState × FilterBuffer :=
  readLoop block buffer.data.length this.turns this buffer

/-- Read into the internal output buffer, which is empty. -/
def readOutput (this : IoReadState) : IoReadState :=
  let (this, output) := { this with output := [] }.ioReadInternal ⟨this.bufferSize, []⟩ false
  { this with output := output.data }

/-- Use any data in the internal output buffer. -/
def copyOutput (this : IoReadState) (buffer : FilterBuffer) : IoReadState × FilterBuffer :=
  let size := min this.output.length buffer.remains
  ({ this with output := this.output.drop size }, buffer.cat (this.output.take size))

/-- If more data is required then read into the buffer, or as much data as there
is into the internal output buffer. -/
def readMore (this : IoReadState) (buffer : FilterBuffer) : IoReadState × FilterBuffer :=
  if buffer.isFull then (this, buffer)
  else if buffer.remains ≥ this.bufferSize then this.ioReadInternal buffer true
  else (this.readOutput, buffer)

/-- The loop of `ioReadSmall`. Every turn but the first adds a byte. -/
def smallLoop : ℕ → IoReadState → FilterBuffer → IoReadState × FilterBuffer
  | 0, this, buffer => (this, buffer)
  | fuel + 1, this, buffer =>
    let (this, buffer) := this.copyOutput buffer
    let (this, buffer) := this.readMore buffer
    if buffer.isFull || this.eofAll then (this, buffer) else smallLoop fuel this buffer

/-- `ioReadSmall`, into an empty buffer of the given size. -/
def ioReadSmall (this : IoReadState) (size : ℕ) : Bytes × IoReadState :=
  let (this, buffer) := smallLoop (size + 1) this ⟨size, []⟩
  (buffer.data, this)

/-- The next byte for `ioReadVarIntU64`. -/
def varIntByte (this : IoReadState) : Except Error (UInt8 × IoReadState) :=
  let this := if this.output.isEmpty then this.readOutput else this
  match this.output with
  | [] => .error ⟨.fileReadError, "unexpected eof".toList⟩
  | byte :: output => .ok (byte, { this with output := output })

/-- The loop of `ioReadVarIntU64`, for the bytes that may follow. -/
def varIntLoop : ℕ → ℕ → ℕ → IoReadState → Except Error (ℕ × IoReadState)
  | 0, _, _, _ => .error ⟨.formatError, "unterminated base-128 integer".toList⟩
  | n + 1, bufferIdx, result, this => do
    let (byte, this) ← this.varIntByte
    let result := result ||| ((byte.toNat &&& 0x7f) <<< (7 * bufferIdx)) % 2 ^ 64
    if byte < 0x80 then .ok (result, this) else varIntLoop n (bufferIdx + 1) result this

/-- `ioReadVarIntU64`. -/
def ioReadVarIntU64 (this : IoReadState) : Except Error (ℕ × IoReadState) :=
  varIntLoop CVT_VARINT128_BUFFER_SIZE 0 0 this

/-! ## What is left of the stream -/

/-- Input that was not passed on yet. -/
def pending (this : IoReadState) : Bytes :=
  if this.filter.inputSame then (this.input.getD []).drop this.filter.inputPos else []

/-- What was not read into the internal output buffer yet. -/
def unread (this : IoReadState) : Bytes := this.pending ++ this.driver.flatten

/-- **The bytes of the stream** that were not handed out yet. -/
def bytes (this : IoReadState) : Bytes := this.output ++ this.unread

/-- Bytes and reads of the driver that are left. -/
def weight (driver : List Bytes) : ℕ := (driver.map (fun chunk => chunk.length + 1)).sum

/-- **What holds between two calls.** -/
structure Valid (this : IoReadState) : Prop where
  pos : this.filter.inputSame = false → this.filter.inputPos = 0
  pos_le : this.filter.inputPos ≤ (this.input.getD []).length
  flushing : this.flushing = true → this.input = none
  input : this.input = none → this.driver = [] ∧ this.filter.inputSame = false
  eofAll : this.eofAll = true → this.flushing = true

section

variable (block : Bool) (bufferSize : ℕ+) (driver : List Bytes)

theorem ioReadNew_valid : (ioReadNew block bufferSize driver).Valid :=
  ⟨fun _ => rfl, Nat.zero_le _, nofun, nofun, nofun⟩

theorem ioReadNew_bytes :
    (ioReadNew block bufferSize driver).bytes = driver.flatten := rfl

end

section Read

variable {this this' : IoReadState} {buffer buffer' : FilterBuffer} {block : Bool}
  {usedBegin : ℕ}

theorem Valid.unread_of_eof (h : this.Valid) (heof : this.eofAll = true) : this.unread = [] := by
  obtain ⟨hdriver, hsame⟩ := h.input (h.flushing (h.eofAll heof))
  unfold unread pending
  rw [hdriver, if_neg (by rw [hsame]; exact Bool.false_ne_true)]
  rfl

theorem driverRead_spec {remains : ℕ} (hremains : 0 < remains) (driver : List Bytes)
    (hdriver : driver ≠ []) :
    driver.flatten = (driverRead remains driver).1 ++ (driverRead remains driver).2.flatten ∧
      weight (driverRead remains driver).2 < weight driver := by
  cases driver with
  | nil => exact absurd rfl hdriver
  | cons chunk chunks =>
    have hweight : weight (chunk :: chunks) = chunk.length + 1 + weight chunks := sum_cons
    by_cases hle : chunk.length ≤ remains
    · have hread : driverRead remains (chunk :: chunks) = (chunk, chunks) := if_pos hle
      rw [hread, hweight]
      exact ⟨rfl, by dsimp only; omega⟩
    · have hread : driverRead remains (chunk :: chunks)
          = (chunk.take remains, chunk.drop remains :: chunks) := if_neg hle
      have hrest : weight (chunk.drop remains :: chunks)
          = (chunk.drop remains).length + 1 + weight chunks := sum_cons
      rw [hread, hweight]
      refine ⟨?_, ?_⟩
      · rw [flatten_cons, flatten_cons, ← append_assoc, take_append_drop]
      · rw [hrest, length_drop]
        omega

/-- **The filter passes on what fits**, and asks for the same input again when
the buffer is full. -/
theorem process_some {input : Bytes} (buffer : FilterBuffer) (hinput : this.input = some input)
    (hpos : this.filter.inputPos ≤ input.length) :
    ∃ filter : IoBuffer, this.process buffer
        = ({ this with filter := filter },
            buffer.cat ((input.drop this.filter.inputPos).take buffer.remains)) ∧
      filter.inputPos ≤ input.length ∧
      (filter.inputSame = true ∧ filter.inputPos = this.filter.inputPos + buffer.remains ∧
          buffer.remains ≤ (input.drop this.filter.inputPos).length ∨
        filter.inputSame = false ∧ filter.inputPos = 0 ∧
          (input.drop this.filter.inputPos).length ≤ buffer.remains) := by
  have hlength : (input.drop this.filter.inputPos).length = input.length - this.filter.inputPos :=
    length_drop
  have htake : (input.drop this.filter.inputPos).take
      (min (input.length - this.filter.inputPos) buffer.remains)
        = (input.drop this.filter.inputPos).take buffer.remains := by
    rw [← hlength, Nat.min_comm, ← take_take, take_length]
  unfold process ioBufferProcess
  rw [hinput]
  dsimp only [Option.getD_some]
  rw [htake, hlength]
  split
  · rename_i hall
    exact ⟨_, rfl, Nat.zero_le _, .inr ⟨rfl, rfl, by omega⟩⟩
  · rename_i hpart
    exact ⟨_, rfl, by dsimp only; omega, .inl ⟨rfl, by dsimp only; omega, by omega⟩⟩

/-- What a call reads: some data for the buffer, which is full afterwards unless
the call does not block and there is some data, or all is at its end. -/
structure Reads (block : Bool) (usedBegin : ℕ) (this : IoReadState) (buffer : FilterBuffer)
    (result : IoReadState × FilterBuffer) : Prop where
  data : ∃ data, result.2 = buffer.cat data ∧ data.length ≤ buffer.remains ∧
    this.unread = data ++ result.1.unread
  valid : result.1.Valid
  output : result.1.output = this.output
  bufferSize : result.1.bufferSize = this.bufferSize
  enough : result.2.isFull = true ∨ result.1.eofAll = true ∨
    block = false ∧ usedBegin < result.2.data.length
  eof : block = false → result.1.eofAll = true → result.2.data.length ≤ usedBegin

theorem isFull_iff : buffer.isFull = true ↔ buffer.remains = 0 := by
  exact decide_eq_true_iff

theorem remains_cat (buffer : FilterBuffer) (data : Bytes) : (buffer.cat data).remains = buffer.remains - data.length := by
  unfold FilterBuffer.remains FilterBuffer.cat
  rw [length_append, Nat.sub_sub]

theorem Reads.refl (h : this.Valid)
    (henough : buffer.isFull = true ∨ this.eofAll = true ∨
      block = false ∧ usedBegin < buffer.data.length)
    (heof : block = false → this.eofAll = true → buffer.data.length ≤ usedBegin) :
    Reads block usedBegin this buffer (this, buffer) := by
  refine ⟨⟨[], ?_, Nat.zero_le _, rfl⟩, h, rfl, rfl, henough, heof⟩
  unfold FilterBuffer.cat
  rw [append_nil]

theorem Reads.after {result : IoReadState × FilterBuffer} {data : Bytes}
    (h : Reads block usedBegin this' (buffer.cat data) result) (hdata : data.length ≤ buffer.remains)
    (hunread : this.unread = data ++ this'.unread) (houtput : this'.output = this.output)
    (hsize : this'.bufferSize = this.bufferSize) : Reads block usedBegin this buffer result := by
  obtain ⟨more, hmore, hlength, hrest⟩ := h.data
  rw [remains_cat] at hlength
  refine ⟨⟨data ++ more, ?_, ?_, ?_⟩, h.valid, h.output.trans houtput, h.bufferSize.trans hsize,
    h.enough, h.eof⟩
  · rw [hmore]
    unfold FilterBuffer.cat
    rw [append_assoc]
  · rw [length_append]
    omega
  · rw [hunread, hrest, append_assoc]

/-- Turns that are left. -/
def cost (this : IoReadState) : ℕ :=
  (if this.filter.inputSame then 1 else 0) + weight this.driver + (if this.eofAll then 0 else 1)

theorem Valid.setEof (h : this.Valid) : this.setEof.Valid := by
  refine ⟨h.pos, h.pos_le, h.flushing, h.input, fun heof => ?_⟩
  exact (Bool.and_eq_true_iff.mp (Bool.and_eq_true_iff.mp heof).2).1

/-- **A turn with input**: it adds what fits. -/
theorem Valid.process {input : Bytes} (h : this.Valid) (buffer : FilterBuffer) (hinput : this.input = some input) :
    ∃ this' data, this.process buffer = (this', buffer.cat data) ∧ this'.Valid ∧
      data.length ≤ buffer.remains ∧
      input.drop this.filter.inputPos = data ++ this'.pending ∧
      this'.driver = this.driver ∧ this'.output = this.output ∧ this'.eofAll = this.eofAll ∧
      this'.bufferSize = this.bufferSize ∧ this'.flushing = this.flushing ∧
      (this'.filter.inputSame = true → (buffer.cat data).isFull = true) := by
  have hpos := h.pos_le
  rw [hinput] at hpos
  obtain ⟨filter, hprocess, hfilter, hcases⟩ := process_some buffer hinput hpos
  have hlength : ((input.drop this.filter.inputPos).take buffer.remains).length
      = min buffer.remains (input.drop this.filter.inputPos).length := length_take
  refine ⟨_, _, hprocess, ⟨?_, ?_, h.flushing, fun hnone => ?_, h.eofAll⟩,
    by rw [hlength]; exact Nat.min_le_left _ _, ?_, rfl, rfl, rfl, rfl, rfl, ?_⟩
  · intro hsame
    obtain ⟨htrue, -⟩ | ⟨-, hzero, -⟩ := hcases
    · cases htrue.symm.trans hsame
    · exact hzero
  · show filter.inputPos ≤ (this.input.getD []).length
    rw [hinput]
    exact hfilter
  · cases hinput.symm.trans hnone
  · unfold pending
    rw [hinput]
    obtain ⟨hsame, hnext, -⟩ | ⟨hsame, -, hall⟩ := hcases
    · rw [if_pos hsame, hnext, ← drop_drop]
      exact (take_append_drop _ _).symm
    · rw [if_neg (by rw [hsame]; exact Bool.false_ne_true), append_nil,
        take_of_length_le hall]
  · intro hsame
    obtain ⟨-, -, hpart⟩ | ⟨hfalse, -⟩ := hcases
    · rw [isFull_iff, remains_cat, hlength]
      omega
    · cases hfalse.symm.trans hsame

/-- **New input**: bytes of the driver, or its end. -/
theorem Valid.readInput (h : this.Valid) (hsame : this.filter.inputSame = false)
    (hfull : ¬ buffer.isFull = true) :
    ∃ input driver, this.readInput buffer = { this with input := input, driver := driver } ∧
      ({ this with input := input, driver := driver } : IoReadState).Valid ∧
      this.driver.flatten = input.getD [] ++ driver.flatten ∧
      (input = none ∧ driver = [] ∨
        weight driver < weight this.driver ∧ this.flushing = false ∧ input ≠ none) := by
  have hpos := h.pos hsame
  unfold IoReadState.readInput
  cases hinput : this.input with
  | none =>
    obtain ⟨hdriver, -⟩ := h.input hinput
    refine ⟨none, [], ?_, ⟨h.pos, ?_, fun _ => rfl, fun _ => ⟨rfl, hsame⟩, h.eofAll⟩, ?_,
      .inl ⟨rfl, rfl⟩⟩
    · rw [if_pos (by rfl), ← hinput, ← hdriver]
    · rw [hpos]
      exact Nat.zero_le _
    · rw [hdriver]
      rfl
  | some old =>
    rw [if_neg (by exact Bool.false_ne_true)]
    have hflushing : this.flushing = false := by
      refine Bool.eq_false_iff.mpr (fun hflushing => ?_)
      cases hinput.symm.trans (h.flushing hflushing)
    cases hdriver : this.driver with
    | nil =>
      refine ⟨none, [], ?_, ⟨h.pos, ?_, fun _ => rfl, fun _ => ⟨rfl, hsame⟩, h.eofAll⟩, rfl,
        .inl ⟨rfl, rfl⟩⟩
      · unfold eofDriver
        rw [hdriver, if_pos (by rfl)]
      · rw [hpos]
        exact Nat.zero_le _
    | cons chunk chunks =>
      have hbuffer : 0 < buffer.remains :=
        Nat.pos_of_ne_zero (fun hzero => hfull (isFull_iff.mpr hzero))
      have hremains : 0 < if this.block then min (this.bufferSize : ℕ) buffer.remains
          else this.bufferSize := by
        split
        · exact lt_min this.bufferSize.pos hbuffer
        · exact this.bufferSize.pos
      obtain ⟨hflatten, hweight⟩ := driverRead_spec hremains (chunk :: chunks) (cons_ne_nil _ _)
      refine ⟨some _, _, ?_, ⟨h.pos, ?_, ?_, nofun, h.eofAll⟩, hflatten,
        .inr ⟨hweight, hflushing, nofun⟩⟩
      · unfold eofDriver
        rw [hdriver, if_neg (by exact Bool.false_ne_true)]
      · rw [hpos]
        exact Nat.zero_le _
      · intro htrue
        rw [hflushing] at htrue
        cases htrue

/-- What a turn of the loop does when nothing is at its end. -/
structure Turn (this this' : IoReadState) (buffer : FilterBuffer) (data : Bytes) : Prop where
  valid : this'.Valid
  data_le : data.length ≤ buffer.remains
  unread : this.unread = data ++ this'.unread
  output : this'.output = this.output
  bufferSize : this'.bufferSize = this.bufferSize
  eofAll : this'.eofAll = false
  next : (buffer.cat data).isFull = true ∨ cost this'.setEof < cost this

theorem cost_of_not_same (this : IoReadState) (hsame : this.filter.inputSame = false) :
    cost this = weight this.driver + if this.eofAll then 0 else 1 := by
  unfold cost
  rw [if_neg (by rw [hsame]; exact Bool.false_ne_true), Nat.zero_add]

theorem setEof_of_not_flushing (hflushing : this.flushing = false) : this.setEof.eofAll = false := by
  show (this.eofDriver && (this.flushing && _)) = false
  rw [hflushing, Bool.false_and, Bool.and_false]

theorem Valid.turn_same (h : this.Valid) (buffer : FilterBuffer) (hsame : this.filter.inputSame = true)
    (heof : this.eofAll = false) :
    ∃ this' data, this.process buffer = (this', buffer.cat data) ∧ Turn this this' buffer data ∧
      this'.setEof.eofAll = false := by
  obtain ⟨input, hinput⟩ : ∃ input, this.input = some input := by
    cases hinput : this.input with
    | none => cases hsame.symm.trans (h.input hinput).2
    | some input => exact ⟨input, rfl⟩
  obtain ⟨this', data, hprocess, hvalid, hdata, hpending, hdriver, houtput, heof', hsize, hflushing,
    hagain⟩ := h.process buffer hinput
  have hnot : this'.flushing = false := by
    refine Bool.eq_false_iff.mpr (fun htrue => ?_)
    rw [hflushing] at htrue
    cases hinput.symm.trans (h.flushing htrue)
  have hnotEof := setEof_of_not_flushing hnot
  have hunread : this.unread = data ++ this'.unread := by
    have hleft : this.pending = input.drop this.filter.inputPos := by
      unfold pending
      rw [if_pos hsame, hinput]
      rfl
    unfold unread
    rw [hleft, hpending, hdriver, append_assoc]
  refine ⟨this', data, hprocess, ⟨hvalid, hdata, hunread, houtput, hsize, heof'.trans heof, ?_⟩,
    hnotEof⟩
  cases hsame' : this'.filter.inputSame with
  | true => exact .inl (hagain hsame')
  | false =>
    right
    rw [cost_of_not_same this'.setEof hsame', hnotEof]
    unfold cost
    rw [if_pos hsame, heof]
    show weight this'.driver + 1 < 1 + weight this.driver + 1
    rw [hdriver]
    omega

theorem Valid.turn_new (h : this.Valid) (hsame : this.filter.inputSame = false)
    (heof : this.eofAll = false) (hfull : ¬ buffer.isFull = true) :
    ∃ this' data,
      (if (this.readInput buffer).input = some [] then (this.readInput buffer, buffer)
        else (this.readInput buffer).process buffer) = (this', buffer.cat data) ∧
      Turn this this' buffer data := by
  obtain ⟨input, driver, hread, hvalid, hflatten, hturn⟩ := h.readInput hsame hfull
  have hcat : buffer.cat [] = buffer := by
    unfold FilterBuffer.cat
    rw [append_nil]
  have hunread : this.unread = input.getD [] ++ driver.flatten := by
    unfold unread pending
    rw [if_neg (by rw [hsame]; exact Bool.false_ne_true)]
    exact hflatten
  have hcost : cost this = weight this.driver + 1 := by
    rw [cost_of_not_same this hsame, heof]
    rfl
  rw [hread]
  cases hinput : input with
  | none =>
    obtain ⟨-, hdriver⟩ | ⟨-, -, hne⟩ := hturn
    · -- the flush, after which all is at its end
      rw [hinput, hdriver] at hvalid hunread
      refine ⟨{ this with input := none, driver := [], flushing := true }, [], ?_,
        ⟨hvalid.pos, hvalid.pos_le, fun _ => rfl, hvalid.input, fun _ => rfl⟩, Nat.zero_le _, ?_, rfl,
        rfl, heof, .inr ?_⟩
      · rw [if_neg nofun, hcat, hdriver]
        rfl
      · rw [hunread]
        unfold unread pending
        rw [if_neg (by rw [hsame]; exact Bool.false_ne_true)]
        rfl
      · have hend : cost
            ({ this with input := none, driver := [], flushing := true } : IoReadState).setEof = 0 := by
          show (if this.filter.inputSame then 1 else 0) + 0
            + (if (true && (true && !this.filter.inputSame)) then 0 else 1) = 0
          rw [hsame]
          rfl
        rw [hend, hcost]
        exact Nat.succ_pos _
    · exact absurd hinput hne
  | some bytes =>
    obtain ⟨hnone, -⟩ | ⟨hweight, hflushing, -⟩ := hturn
    · cases hnone.symm.trans hinput
    · rw [hinput] at hvalid hunread
      have hless : ∀ this' : IoReadState, this'.driver = driver → this'.flushing = false →
          this'.filter.inputSame = false → cost this'.setEof < cost this := by
        intro this' hdriver hnot hfalse
        rw [cost_of_not_same this'.setEof hfalse, setEof_of_not_flushing hnot, hcost]
        show weight this'.driver + 1 < _
        rw [hdriver]
        omega
      by_cases hempty : bytes = []
      · refine ⟨_, [], ?_, hvalid, Nat.zero_le _, ?_, rfl, rfl, heof, .inr (hless _ rfl hflushing hsame)⟩
        · rw [hempty, if_pos rfl, hcat]
        · rw [hunread, hempty]
          unfold unread pending
          rw [if_neg (by rw [hsame]; exact Bool.false_ne_true)]
          rfl
      · obtain ⟨this', data, hprocess, hvalid', hdata, hpending, hdriver, houtput, heof', hsize,
          hflushing', hagain⟩ := hvalid.process buffer rfl
        have hpos : this.filter.inputPos = 0 := h.pos hsame
        refine ⟨this', data, ?_, hvalid', hdata, ?_, houtput, hsize, heof'.trans heof, ?_⟩
        · rw [if_neg (fun hnil => hempty (Option.some.inj hnil)), hprocess]
        · dsimp only at hpending
          rw [hpos, drop_zero] at hpending
          rw [hunread, Option.getD_some, hpending, append_assoc]
          unfold unread
          rw [hdriver]
        · cases hsame' : this'.filter.inputSame with
          | true => exact .inl (hagain hsame')
          | false => exact .inr (hless this' hdriver (hflushing'.trans hflushing) hsame')

/-- **The loop reads until there is enough.** -/
theorem readLoop_reads (fuel : ℕ) (this : IoReadState) (buffer : FilterBuffer) (h : this.Valid)
    (hfuel : 0 < fuel ∧ (buffer.isFull = true ∨ cost this < fuel))
    (hbegin : block = false → usedBegin < buffer.data.length → this.eofAll = false)
    (hle : usedBegin ≤ buffer.data.length) :
    Reads block usedBegin this buffer (readLoop block usedBegin fuel this buffer) := by
  induction fuel generalizing this buffer with
  | zero => exact absurd hfuel.1 (lt_irrefl 0)
  | succ fuel ih =>
    unfold readLoop
    by_cases hexit : (this.eofAll || buffer.isFull) = true
    · rw [if_pos hexit]
      have henough := Bool.or_eq_true_iff.mp hexit
      refine Reads.refl h (henough.symm.imp_right .inl) (fun hblock heof => ?_)
      exact not_lt.mp (fun hlt => absurd ((hbegin hblock hlt).symm.trans heof) nofun)
    · rw [if_neg hexit]
      rw [Bool.not_eq_true, Bool.or_eq_false_iff] at hexit
      obtain ⟨heof, hnotFull⟩ := hexit
      have hfull : ¬ buffer.isFull = true := by rw [hnotFull]; exact Bool.false_ne_true
      have hcost := hfuel.2.resolve_left hfull
      have hpos : 0 < fuel := by
        have hone : 1 ≤ cost this := by
          unfold cost
          rw [heof]
          exact Nat.le_add_left _ _
        omega
      have hturns : ∀ {this' : IoReadState} {data : Bytes}, Turn this this' buffer data →
          (block = false → usedBegin < (buffer.cat data).data.length → this'.setEof.eofAll = false) →
          Reads block usedBegin this buffer
            (readLoop block usedBegin fuel this'.setEof (buffer.cat data)) := by
        intro this' data hturn hnext
        have hmore : usedBegin ≤ (buffer.cat data).data.length := by
          show _ ≤ (buffer.data ++ data).length
          rw [length_append]
          omega
        have hrest := ih this'.setEof (buffer.cat data) hturn.valid.setEof
          ⟨hpos, hturn.next.imp_right (fun h => by omega)⟩ hnext hmore
        exact hrest.after hturn.data_le hturn.unread hturn.output hturn.bufferSize
      by_cases hsame : this.filter.inputSame = true
      · rw [if_pos hsame]
        obtain ⟨this', data, hprocess, hturn, hnotEof⟩ := h.turn_same buffer hsame heof
        rw [hprocess]
        exact hturns hturn (fun _ _ => hnotEof)
      · rw [if_neg hsame]
        obtain ⟨this', data, hprocess, hturn⟩ :=
          h.turn_new (Bool.eq_false_iff.mpr hsame) heof hfull
        dsimp only
        rw [hprocess]
        by_cases hbreak : (!block && decide ((buffer.cat data).data.length > usedBegin)) = true
        · -- a call that does not block ends with some data
          rw [if_pos hbreak]
          obtain ⟨hblock, hsome⟩ := Bool.and_eq_true_iff.mp hbreak
          have hblock : block = false := by simpa using hblock
          have hsome := of_decide_eq_true hsome
          refine (Reads.refl hturn.valid (.inr (.inr ⟨hblock, hsome⟩)) (fun _ heof' => ?_)).after
            hturn.data_le hturn.unread hturn.output hturn.bufferSize
          cases hturn.eofAll.symm.trans heof'
        · rw [if_neg hbreak]
          refine hturns hturn (fun hblock hsome => absurd ?_ hbreak)
          rw [hblock]
          exact decide_eq_true hsome

section

variable (h : this.Valid)
include h

/-- **A read**, into a buffer that may have used some bytes. -/
theorem ioReadInternal_reads (buffer : FilterBuffer) (block : Bool) :
    Reads block buffer.data.length this buffer (this.ioReadInternal buffer block) := by
  refine readLoop_reads _ _ _ h ⟨Nat.succ_pos _, .inr ?_⟩ (fun _ hlt => absurd hlt (lt_irrefl _)) le_rfl
  show _ + weight this.driver + _ < weight this.driver + 3
  split
  · split
    · omega
    · omega
  · split
    · omega
    · omega

theorem Valid.setOutput (output : Bytes) : ({ this with output := output } : IoReadState).Valid :=
  ⟨h.pos, h.pos_le, h.flushing, h.input, h.eofAll⟩

/-- **The internal output buffer** gets some bytes, if there are any. -/
theorem readOutput_bytes (hempty : this.output = []) :
    this.readOutput.Valid ∧ this.readOutput.bytes = this.bytes ∧
      this.readOutput.bufferSize = this.bufferSize ∧
      (this.readOutput.output = [] → this.readOutput.eofAll = true) ∧
      (this.readOutput.eofAll = true → this.readOutput.bytes = []) := by
  have hreads := ioReadInternal_reads (h.setOutput []) ⟨this.bufferSize, []⟩ false
  unfold readOutput
  generalize ({ this with output := [] } : IoReadState).ioReadInternal ⟨this.bufferSize, []⟩ false
    = result at hreads
  obtain ⟨this', buffer'⟩ := result
  obtain ⟨data, hbuffer, -, hunread⟩ := hreads.data
  have hdata : buffer'.data = data := by
    have hbuffer : buffer' = _ := hbuffer
    rw [hbuffer]
    rfl
  have hunread : this.unread = data ++ this'.unread := hunread
  have hvalid : this'.Valid := hreads.valid
  have heof : this'.eofAll = true → data = [] := by
    intro heof
    have hle : buffer'.data.length ≤ 0 := hreads.eof rfl heof
    rw [hdata] at hle
    exact eq_nil_of_length_eq_zero (Nat.le_zero.mp hle)
  refine ⟨hvalid.setOutput _, ?_, hreads.bufferSize, fun hnone => ?_, fun h' => ?_⟩
  · show buffer'.data ++ this'.unread = this.output ++ this.unread
    rw [hdata, hempty, hunread]
    rfl
  · have hnone : buffer'.data = [] := hnone
    obtain hfull | heof' | ⟨-, hsome⟩ := hreads.enough
    · have hremains : buffer'.remains = 0 := isFull_iff.mp hfull
      have hsize : buffer'.size = this.bufferSize := by
        have hbuffer : buffer' = _ := hbuffer
        rw [hbuffer]
        rfl
      unfold FilterBuffer.remains at hremains
      rw [hnone, hsize] at hremains
      exact absurd hremains (Nat.ne_of_gt this.bufferSize.pos)
    · exact heof'
    · have hsome : 0 < buffer'.data.length := hsome
      rw [hnone] at hsome
      exact absurd hsome (lt_irrefl 0)
  · show buffer'.data ++ this'.unread = []
    rw [hdata, heof h', hvalid.unread_of_eof h']
    rfl

/-- What is copied comes first in the stream. -/
theorem copyOutput_bytes (buffer : FilterBuffer) :
    ∃ this' data, this.copyOutput buffer = (this', buffer.cat data) ∧ this'.Valid ∧
      this.bytes = data ++ this'.bytes ∧ data.length = min this.output.length buffer.remains ∧
      (this.output.length < buffer.remains → this'.output = []) := by
  refine ⟨_, _, rfl, h.setOutput _, ?_, ?_, fun hlt => ?_⟩
  · show this.output ++ this.unread = _ ++ (this.output.drop _ ++ this.unread)
    rw [← append_assoc, take_append_drop]
  · rw [length_take]
    exact min_eq_left (min_le_left _ _)
  · show this.output.drop _ = []
    rw [Nat.min_eq_left hlt.le]
    exact drop_length

theorem readMore_bytes (hempty : this.output = []) (hfull : ¬ buffer.isFull = true) :
    ∃ this' data, this.readMore buffer = (this', buffer.cat data) ∧ this'.Valid ∧
      this.bytes = data ++ this'.bytes ∧ data.length ≤ buffer.remains ∧
      (this'.eofAll = true → (buffer.cat data).isFull = true ∨ this'.bytes = []) ∧
      ((buffer.cat data).isFull = true ∨ this'.eofAll = true ∨ this'.output ≠ []) := by
  unfold readMore
  rw [if_neg hfull]
  by_cases hdirect : buffer.remains ≥ this.bufferSize
  · rw [if_pos hdirect]
    have hreads := ioReadInternal_reads h buffer true
    generalize this.ioReadInternal buffer true = result at hreads
    obtain ⟨this', buffer'⟩ := result
    obtain ⟨data, rfl, hle, hunread⟩ := hreads.data
    have hvalid : this'.Valid := hreads.valid
    have houtput : this'.output = [] := hreads.output.trans hempty
    refine ⟨this', data, rfl, hvalid, ?_, hle, fun heof => .inr ?_, ?_⟩
    · unfold bytes
      rw [hempty, houtput, hunread]
      rfl
    · unfold bytes
      rw [houtput, hvalid.unread_of_eof heof]
      rfl
    · exact hreads.enough.imp_right (fun h => .inl (h.resolve_right (fun h => absurd h.1 nofun)))
  · rw [if_neg hdirect]
    obtain ⟨hvalid, hbytes, -, hnone, heof⟩ := readOutput_bytes h hempty
    refine ⟨this.readOutput, [], ?_, hvalid, hbytes.symm, Nat.zero_le _, fun h => .inr (heof h), ?_⟩
    · unfold FilterBuffer.cat
      rw [append_nil]
    · exact .inr (Decidable.or_iff_not_imp_right.mpr (fun h => hnone (not_not.mp h)))

end

/-- **The loop of `ioReadSmall`** fills the buffer or reads all that is left. -/
theorem smallLoop_bytes (fuel : ℕ) (this : IoReadState) (buffer : FilterBuffer) (h : this.Valid)
    (hfuel : buffer.remains < fuel ∨ 0 < fuel ∧ buffer.remains ≤ fuel ∧ this.output ≠ []) :
    ∃ this' data, smallLoop fuel this buffer = (this', buffer.cat data) ∧ this'.Valid ∧
      this.bytes = data ++ this'.bytes ∧
      (data.length = buffer.remains ∨ data.length < buffer.remains ∧ this'.bytes = []) := by
  induction fuel generalizing this buffer with
  | zero =>
    obtain hlt | ⟨hlt, -⟩ := hfuel
    · exact absurd hlt (Nat.not_lt_zero _)
    · exact absurd hlt (lt_irrefl 0)
  | succ fuel ih =>
    have hcat : ∀ first second : Bytes, (buffer.cat first).cat second = buffer.cat (first ++ second) :=
      fun first second => congrArg _ (append_assoc _ _ _)
    obtain ⟨this₁, data₁, hcopy, hvalid₁, hbytes₁, hlength₁, hempty₁⟩ :=
      copyOutput_bytes h buffer
    have hremains := remains_cat buffer data₁
    unfold smallLoop
    rw [hcopy]
    dsimp only
    by_cases hfull : (buffer.cat data₁).isFull = true
    · -- the internal output buffer had enough
      have hmore : this₁.readMore (buffer.cat data₁) = (this₁, buffer.cat data₁) := if_pos hfull
      have hzero := isFull_iff.mp hfull
      rw [hmore]
      rw [hfull, Bool.true_or, if_pos rfl]
      exact ⟨this₁, data₁, rfl, hvalid₁, hbytes₁, .inl (by omega)⟩
    · have hpos : 0 < (buffer.cat data₁).remains :=
        Nat.pos_of_ne_zero (fun h => hfull (isFull_iff.mpr h))
      obtain ⟨this₂, data₂, hmore, hvalid₂, hbytes₂, hle₂, heof₂, hnext₂⟩ :=
        readMore_bytes hvalid₁ (hempty₁ (by omega)) hfull
      have hremains₂ := remains_cat (buffer.cat data₁) data₂
      have hbytes : this.bytes = (data₁ ++ data₂) ++ this₂.bytes := by
        rw [hbytes₁, hbytes₂, append_assoc]
      rw [hcat] at heof₂ hnext₂ hremains₂
      rw [hmore, hcat]
      by_cases hexit : ((buffer.cat (data₁ ++ data₂)).isFull || this₂.eofAll) = true
      · rw [if_pos hexit]
        refine ⟨this₂, data₁ ++ data₂, rfl, hvalid₂, hbytes, ?_⟩
        rw [length_append]
        have hend : (buffer.cat (data₁ ++ data₂)).isFull = true ∨ this₂.bytes = [] := by
          obtain h | h := Bool.or_eq_true_iff.mp hexit
          · exact .inl h
          · exact heof₂ h
        obtain h | h := hend
        · have hzero := isFull_iff.mp h
          left
          omega
        · by_cases hlt : data₁.length + data₂.length < buffer.remains
          · exact .inr ⟨hlt, h⟩
          · left
            omega
      · rw [if_neg hexit]
        rw [Bool.or_eq_true_iff, not_or] at hexit
        have hsome : this₂.output ≠ [] := (hnext₂.resolve_left hexit.1).resolve_left hexit.2
        have hturn : 0 < fuel ∧ (buffer.cat (data₁ ++ data₂)).remains ≤ fuel := by
          obtain hlt | ⟨-, hle, hold⟩ := hfuel
          · omega
          · have hold := length_pos_of_ne_nil hold
            omega
        obtain ⟨this', data, hloop, hvalid', hbytes', hend⟩ :=
          ih this₂ (buffer.cat (data₁ ++ data₂)) hvalid₂ (.inr ⟨hturn.1, hturn.2, hsome⟩)
        refine ⟨this', data₁ ++ data₂ ++ data, ?_, hvalid', ?_, ?_⟩
        · rw [hloop, hcat]
        · rw [hbytes, hbytes']
          simp only [append_assoc]
        · rw [length_append, length_append]
          exact hend.imp (fun h => by omega) (fun h => ⟨by omega, h.2⟩)

/-- **`ioReadSmall` returns the next bytes**, as many as were asked for or all
that are left. -/
theorem ioReadSmall_bytes (h : this.Valid) (size : ℕ) :
    (this.ioReadSmall size).1 = this.bytes.take size ∧
      (this.ioReadSmall size).2.bytes = this.bytes.drop size ∧
      (this.ioReadSmall size).2.Valid := by
  obtain ⟨this', data, hloop, hvalid, hbytes, hend⟩ :=
    smallLoop_bytes (size + 1) this ⟨size, []⟩ h (.inl (Nat.lt_succ_self _))
  have hsmall : this.ioReadSmall size = (data, this') := by
    unfold ioReadSmall
    rw [hloop]
    rfl
  have hend : data.length = size ∨ data.length < size ∧ this'.bytes = [] := hend
  rw [hsmall]
  obtain hlength | ⟨hlt, hnil⟩ := hend
  · refine ⟨?_, ?_, hvalid⟩
    · rw [hbytes, ← hlength, take_left]
    · rw [hbytes, ← hlength, drop_left]
  · rw [hnil, append_nil] at hbytes
    refine ⟨?_, ?_, hvalid⟩
    · rw [hbytes, take_of_length_le hlt.le]
    · rw [hbytes, drop_of_length_le hlt.le]
      exact hnil

/-- **`ioReadVarIntU64` decodes the next bytes.** -/
theorem varIntLoop_bytes (n bufferIdx result : ℕ) (this : IoReadState) (h : this.Valid) :
    match Base128.decode (⟨.fileReadError, "unexpected eof".toList⟩ : Error)
      ⟨.formatError, "unterminated base-128 integer".toList⟩ 64 n bufferIdx result this.bytes with
    | .error error => varIntLoop n bufferIdx result this = .error error
    | .ok (value, rest) => ∃ this', varIntLoop n bufferIdx result this = .ok (value, this') ∧
        this'.Valid ∧ this'.bytes = rest := by
  induction n generalizing bufferIdx result this with
  | zero => rfl
  | succ n ih =>
    obtain ⟨this₁, hthis₁, hvalid₁, hbytes₁, hempty₁⟩ : ∃ this₁,
        (if this.output.isEmpty then this.readOutput else this) = this₁ ∧ this₁.Valid ∧
          this₁.bytes = this.bytes ∧ (this₁.output = [] → this.bytes = []) := by
      cases houtput : this.output with
      | nil =>
        obtain ⟨hvalid₁, hbytes₁, -, hnone, heof⟩ := readOutput_bytes h houtput
        exact ⟨_, rfl, hvalid₁, hbytes₁, fun h => hbytes₁ ▸ heof (hnone h)⟩
      | cons byte output =>
        exact ⟨this, rfl, h, rfl, fun h => absurd (houtput.symm.trans h) nofun⟩
    unfold varIntLoop varIntByte
    rw [hthis₁]
    dsimp only
    cases houtput : this₁.output with
    | nil =>
      rw [hempty₁ houtput]
      rfl
    | cons byte output =>
      have hbytes : this.bytes = byte :: (output ++ this₁.unread) := by
        rw [← hbytes₁]
        unfold bytes
        rw [houtput]
        rfl
      have hvalid₂ := hvalid₁.setOutput output
      rw [hbytes, ok_bind]
      unfold Base128.decode
      by_cases hlast : byte < 0x80
      · rw [if_pos hlast, if_pos hlast]
        exact ⟨_, rfl, hvalid₂, rfl⟩
      · rw [if_neg hlast, if_neg hlast]
        exact ih (bufferIdx + 1) _ _ hvalid₂

theorem ioReadVarIntU64_bytes (h : this.Valid) :
    match PgxBackup.ioReadVarIntU64.run this.bytes with
    | .error error => this.ioReadVarIntU64 = .error error
    | .ok (value, rest) => ∃ this', this.ioReadVarIntU64 = .ok (value, this') ∧ this'.Valid ∧
        this'.bytes = rest :=
  varIntLoop_bytes _ _ _ this h

end Read

end IoReadState

end PgxBackup
