import PgxBackup.BlockRestore
import PgxBackup.FilterGroup
import PgxBackup.Steps

/-!
# Buffered writing with seek

An `IoWrite` without filters passes what is written through the buffer filter
into its output buffer and gives the driver full buffers. The driver has an
offset of its own. The field `position` is meant to be where the next byte
goes, but it counts only what full buffers gave to the driver: bytes that
still wait in the output buffer are not in it, and neither are those that
`ioWriteFlush` has written.

`ioWriteSeek` does nothing when it is asked for the tracked position. So it
keeps its promise when the position differs from the tracked one, or when the
tracked one is right; a seek to the tracked position while bytes are waiting
leaves the next byte behind them.
-/

namespace PgxBackup

open List

/-- `IoWrite` without filters, and the file that its driver has open. -/
structure IoWriteState where
  bufferSize : ℕ+
  /-- The buffer filter. -/
  filter : IoBuffer
  /-- Was the filter flushed? -/
  flushing : Bool
  /-- Output buffer. -/
  output : Bytes
  /-- Current write position. -/
  position : ℕ
  /-- The content of the file. -/
  file : Bytes
  /-- The offset of the descriptor. -/
  offset : ℕ

/-- `ioWriteNew` and `ioWriteOpen`, for a file that may have content. -/
def ioWriteNew (bufferSize : ℕ+) (file : Bytes) : IoWriteState :=
  ⟨bufferSize, ⟨0, false⟩, false, [], 0, file, 0⟩

namespace IoWriteState

/-- Space left in the output buffer. -/
def remains (this : IoWriteState) : ℕ := this.bufferSize - this.output.length

/-- `ioFilterGroupDone`. -/
def done (this : IoWriteState) : Bool := this.flushing && !this.filter.inputSame

/-- `ioFilterGroupProcess` for the buffer filter, which is only passed data. -/
def process (this : IoWriteState) : Option Bytes → IoWriteState
  | none => { this with flushing := true }
  | some input =>
    let (filter, data) := ioBufferProcess this.filter (some input) ⟨this.bufferSize, this.output⟩
    { this with filter := filter, output := this.output ++ data }

/-- The driver writes the output buffer, which is empty then. -/
def driverWrite (this : IoWriteState) : IoWriteState :=
  { this with
    file := writeAt this.file ⟨this.offset, this.output⟩
    offset := this.offset + this.output.length
    output := [] }

/-- The loop of `ioWrite`. Every turn but the last consumes input. -/
def writeLoop (buffer : Bytes) : ℕ → IoWriteState → IoWriteState
  | 0, this => this
  | fuel + 1, this =>
    let this := this.process (some buffer)
    let this :=
      if this.remains = 0 then
        { this.driverWrite with position := this.position + this.output.length }
      else this
    if this.filter.inputSame then writeLoop buffer fuel this else this

/-- `ioWrite`. -/
def ioWrite (this : IoWriteState) (buffer : Bytes) : IoWriteState :=
  if buffer = [] then this else writeLoop buffer buffer.length this

/-- `ioWriteFlush`. -/
def ioWriteFlush (this : IoWriteState) : IoWriteState :=
  if this.output = [] then this else this.driverWrite

/-- `ioWriteSeek`. -/
def ioWriteSeek (this : IoWriteState) (position : ℕ) : IoWriteState :=
  if position = this.position then this
  else { this.ioWriteFlush with offset := position, position := position }

/-- `ioWriteClose`. The loop ends after its first turn, since a buffer filter
that was flushed is done. -/
def ioWriteClose (this : IoWriteState) : IoWriteState :=
  let this := this.process none
  if this.remains = 0 ∨ (this.done ∧ this.output ≠ []) then this.driverWrite else this

end IoWriteState

/-- A call on an `IoWrite`. -/
inductive IoWriteCall
  | write (buffer : Bytes)
  | seek (position : ℕ)
  | flush
  deriving DecidableEq

def IoWriteState.call (this : IoWriteState) : IoWriteCall → IoWriteState
  | .write buffer => this.ioWrite buffer
  | .seek position => this.ioWriteSeek position
  | .flush => this.ioWriteFlush

/-- The content of the file when the calls are made and the `IoWrite` is
closed. -/
def IoWriteState.written (this : IoWriteState) (calls : List IoWriteCall) : Bytes :=
  (calls.foldl IoWriteState.call this).ioWriteClose.file

/-! ## Random access -/

/-- A file and the logical position in it. -/
structure RandomFile where
  file : Bytes
  position : ℕ

/-- **What a call means**: a write goes to the logical position. -/
def RandomFile.call (this : RandomFile) : IoWriteCall → RandomFile
  | .write buffer => ⟨writeAt this.file ⟨this.position, buffer⟩, this.position + buffer.length⟩
  | .seek position => { this with position := position }
  | .flush => this

/-- The content of the file after the calls. -/
def RandomFile.written (this : RandomFile) (calls : List IoWriteCall) : Bytes :=
  (calls.foldl RandomFile.call this).file

/-- Writing two pieces one after the other is writing them at once. -/
theorem writeAt_append (file a b : Bytes) (offset : ℕ) :
    writeAt (writeAt file ⟨offset, a⟩) ⟨offset + a.length, b⟩ = writeAt file ⟨offset, a ++ b⟩ := by
  by_cases ha : a = []
  · rw [ha]
    rfl
  by_cases hb : b = []
  · rw [hb, append_nil]
    rfl
  have hab : a ++ b ≠ [] := append_ne_nil_of_left_ne_nil ha b
  unfold writeAt
  dsimp only
  rw [if_neg ha, if_neg hb, if_neg hab]
  generalize hbefore : (file ++ replicate (offset - file.length) 0).take offset = before
  have hlen : before.length = offset := by
    rw [← hbefore, length_take, length_append, length_replicate]
    omega
  have hfront : (before ++ a).length = offset + a.length := by rw [length_append, hlen]
  rw [append_assoc (before ++ a), take_append_of_le_length hfront.ge,
    take_of_length_le hfront.le, drop_append, hfront, drop_drop, length_append,
    drop_eq_nil_of_le (show (before ++ a).length ≤ _ by omega)]
  rw [show offset + a.length + (offset + a.length + b.length - (offset + a.length))
    = offset + (a.length + b.length) by omega]
  simp

/-! ## Calls that do what they mean -/

namespace IoWriteState

/-- Where the next byte goes. -/
def next (this : IoWriteState) : ℕ := this.offset + this.output.length

/-- **The buffered state stands for the file**: what waits in the output
buffer is yet to be written at the offset of the driver. -/
structure Refines (this : IoWriteState) (direct : RandomFile) : Prop where
  filter : this.filter = ⟨0, false⟩
  remains : 0 < this.remains
  file : writeAt this.file ⟨this.offset, this.output⟩ = direct.file
  position : this.next = direct.position

/-- What a turn of the loop of `ioWrite` relies on: a part of the input has
been passed on. -/
structure Writing (this : IoWriteState) (direct : RandomFile) (input : Bytes) (pos : ℕ) :
    Prop where
  inputPos : this.filter.inputPos = pos
  pos_lt : pos < input.length
  remains : 0 < this.remains
  file : writeAt this.file ⟨this.offset, this.output⟩
    = writeAt direct.file ⟨direct.position, input.take pos⟩
  position : this.next = direct.position + pos

theorem writeAt_nil (file : Bytes) (offset : ℕ) : writeAt file ⟨offset, []⟩ = file := if_pos rfl

theorem driverWrite_file (this : IoWriteState) :
    writeAt this.driverWrite.file ⟨this.driverWrite.offset, this.driverWrite.output⟩
      = writeAt this.file ⟨this.offset, this.output⟩ := by
  show writeAt (writeAt this.file ⟨this.offset, this.output⟩)
    ⟨this.offset + this.output.length, []⟩ = _
  exact writeAt_nil _ _

theorem driverWrite_next (this : IoWriteState) : this.driverWrite.next = this.next := rfl

theorem driverWrite_remains (this : IoWriteState) : 0 < this.driverWrite.remains := by
  show 0 < (this.bufferSize : ℕ) - 0
  rw [Nat.sub_zero]
  exact this.bufferSize.pos

/-- **A turn of the loop** passes on input until there is none left or the
output buffer is full. -/
theorem Writing.process {this : IoWriteState} {direct : RandomFile} {input : Bytes} {pos : ℕ}
    (h : this.Writing direct input pos) :
    ∃ size, 0 < size ∧ pos + size ≤ input.length ∧
      this.process (some input) =
        { this with
          filter := if pos + size = input.length then ⟨0, false⟩ else ⟨pos + size, true⟩
          output := this.output ++ (input.drop pos).take size } ∧
      (pos + size < input.length → (this.process (some input)).remains = 0) := by
  have hpos := h.inputPos
  have hlt := h.pos_lt
  have hremains := h.remains
  refine ⟨min (input.length - pos) this.remains, by omega, by omega, ?_, fun hmore => ?_⟩
  · unfold IoWriteState.process ioBufferProcess
    rw [hpos]
    rfl
  · have hsize : min (input.length - pos) this.remains = this.remains := by omega
    have hlen : this.output.length + this.remains = (this.bufferSize : ℕ) := by
      unfold IoWriteState.remains at hremains ⊢
      omega
    show (this.bufferSize : ℕ) - (this.output ++ ((input.drop this.filter.inputPos).take
      (min (input.length - this.filter.inputPos) this.remains))).length = 0
    rw [hpos, hsize, length_append, length_take, length_drop]
    omega

/-- The end of a turn: a full output buffer is given to the driver. -/
def drain (this : IoWriteState) : IoWriteState :=
  if this.remains = 0 then
    { this.driverWrite with position := this.position + this.output.length }
  else this

section

variable (this : IoWriteState)

theorem drain_file :
    writeAt this.drain.file ⟨this.drain.offset, this.drain.output⟩
      = writeAt this.file ⟨this.offset, this.output⟩ := by
  unfold drain
  split
  · exact driverWrite_file this
  · rfl

theorem drain_next : this.drain.next = this.next := by
  unfold drain
  split
  · exact driverWrite_next this
  · rfl

theorem drain_remains : 0 < this.drain.remains := by
  unfold drain
  split
  next => exact driverWrite_remains this
  next h => exact Nat.pos_of_ne_zero h

theorem drain_filter : this.drain.filter = this.filter := by
  unfold drain
  split
  · rfl
  · rfl

end

/-- **The loop writes the whole input.** -/
theorem Writing.loop {direct : RandomFile} {input : Bytes} (fuel : ℕ) {this : IoWriteState}
    {pos : ℕ} (h : this.Writing direct input pos) (hfuel : input.length ≤ pos + fuel) :
    (writeLoop input fuel this).Refines (direct.call (.write input)) := by
  induction fuel generalizing this pos with
  | zero => exact absurd h.pos_lt (by omega)
  | succ fuel ih =>
    obtain ⟨size, hsize, hle, hprocess, hfull⟩ := h.process
    show (if (this.process (some input)).drain.filter.inputSame then
      writeLoop input fuel (this.process (some input)).drain
      else (this.process (some input)).drain).Refines _
    generalize hthis' : this.process (some input) = this' at *
    have hfilter : this'.drain.filter
        = if pos + size = input.length then ⟨0, false⟩ else ⟨pos + size, true⟩ := by
      rw [drain_filter, hprocess]
    -- what is passed on now follows what was passed on before
    have hfile : writeAt this'.drain.file ⟨this'.drain.offset, this'.drain.output⟩
        = writeAt direct.file ⟨direct.position, input.take (pos + size)⟩ := by
      have htake : (input.take pos).length = pos := by
        rw [length_take]
        omega
      rw [drain_file, hprocess]
      show writeAt this.file ⟨this.offset, this.output ++ (input.drop pos).take size⟩ = _
      rw [← writeAt_append, h.file, show this.offset + this.output.length = this.next from rfl,
        h.position, take_add, ← writeAt_append, htake]
    have hnext : this'.drain.next = direct.position + (pos + size) := by
      rw [drain_next, hprocess]
      show this.offset + (this.output ++ (input.drop pos).take size).length = _
      have hposition : this.offset + this.output.length = direct.position + pos := h.position
      rw [length_append, length_take, length_drop]
      omega
    by_cases hend : pos + size = input.length
    · rw [if_pos hend] at hfilter
      rw [hfilter, if_neg (by decide)]
      refine ⟨hfilter, drain_remains _, ?_, ?_⟩
      · rw [hfile, hend, take_length]
        rfl
      · rw [hnext, hend]
        rfl
    · rw [if_neg hend] at hfilter
      rw [hfilter, if_pos rfl]
      refine ih ⟨by rw [hfilter], by omega, drain_remains _, hfile, hnext⟩ (by omega)

/-- The tracked position, unless it is the one asked for, or it is right. -/
def SeekAllowed (this : IoWriteState) : IoWriteCall → Prop
  | .seek position => position ≠ this.position ∨ this.position = this.next
  | _ => True

instance (this : IoWriteState) (call : IoWriteCall) : Decidable (this.SeekAllowed call) := by
  cases call <;> unfold SeekAllowed <;> infer_instance

variable {this : IoWriteState} {direct : RandomFile}

theorem Refines.ioWriteFlush (h : this.Refines direct) : this.ioWriteFlush.Refines direct := by
  unfold IoWriteState.ioWriteFlush
  split
  · exact h
  · exact ⟨h.filter, driverWrite_remains this, (driverWrite_file this).trans h.file, h.position⟩

theorem ioWriteFlush_output (this : IoWriteState) : this.ioWriteFlush.output = [] := by
  unfold IoWriteState.ioWriteFlush
  split
  next h => exact h
  next => rfl

/-- **A call does what it means.** -/
theorem Refines.call (h : this.Refines direct) {call : IoWriteCall}
    (hallowed : this.SeekAllowed call) : (this.call call).Refines (direct.call call) := by
  cases call with
  | write buffer =>
    show (this.ioWrite buffer).Refines _
    unfold IoWriteState.ioWrite
    by_cases hnil : buffer = []
    · rw [if_pos hnil, hnil]
      show this.Refines ⟨writeAt direct.file ⟨direct.position, []⟩, direct.position + 0⟩
      rw [writeAt_nil]
      exact h
    · rw [if_neg hnil]
      refine Writing.loop buffer.length ⟨?_, length_pos_iff.mpr hnil, h.remains, ?_, ?_⟩
        (by omega)
      · rw [h.filter]
      · rw [h.file, take_zero, writeAt_nil]
      · exact h.position
  | seek position =>
    show (this.ioWriteSeek position).Refines { direct with position := position }
    unfold IoWriteState.ioWriteSeek
    by_cases heq : position = this.position
    · -- nothing is done, and the tracked position is right
      have hnext : this.position = this.next := hallowed.resolve_left (fun hne => hne heq)
      rw [if_pos heq]
      exact ⟨h.filter, h.remains, h.file, by rw [heq, hnext]⟩
    · rw [if_neg heq]
      have hflush := h.ioWriteFlush
      have houtput := ioWriteFlush_output this
      have hfile := hflush.file
      rw [houtput, writeAt_nil] at hfile
      refine ⟨hflush.filter, hflush.remains, ?_, ?_⟩
      · show writeAt this.ioWriteFlush.file ⟨position, this.ioWriteFlush.output⟩ = _
        rw [houtput, writeAt_nil, hfile]
      · show position + this.ioWriteFlush.output.length = position
        rw [houtput]
        rfl
  | flush => exact h.ioWriteFlush

/-- What waits is written when the `IoWrite` is closed. -/
theorem Refines.ioWriteClose (h : this.Refines direct) : this.ioWriteClose.file = direct.file := by
  have hdone : (this.process none).done = true := by
    show (true && !this.filter.inputSame) = true
    rw [h.filter]
    rfl
  show (if (this.process none).remains = 0 ∨ ((this.process none).done ∧
    (this.process none).output ≠ []) then (this.process none).driverWrite
    else this.process none).file = _
  split
  next => exact h.file
  next hout =>
    have houtput : this.output = [] := by
      by_contra hne
      exact hout (.inr ⟨hdone, hne⟩)
    have hfile := h.file
    rw [houtput, writeAt_nil] at hfile
    exact hfile

theorem ioWriteNew_refines (bufferSize : ℕ+) (file : Bytes) :
    (ioWriteNew bufferSize file).Refines ⟨file, 0⟩ :=
  ⟨rfl, bufferSize.pos, writeAt_nil file 0, rfl⟩

/-- Every seek of a sequence of calls is allowed where it is made. -/
def SeeksAllowed (this : IoWriteState) (calls : List IoWriteCall) : Prop :=
  Steps.Meets (fun this call => some (IoWriteState.call this call)) SeekAllowed this calls

instance (this : IoWriteState) (calls : List IoWriteCall) : Decidable (this.SeeksAllowed calls) :=
  Steps.decidableMeets _ _ _

/-- **A sequence of calls does what it means.** -/
theorem Refines.calls {calls : List IoWriteCall} (h : this.Refines direct)
    (hallowed : this.SeeksAllowed calls) :
    (calls.foldl IoWriteState.call this).Refines (calls.foldl RandomFile.call direct) := by
  induction calls generalizing this direct with
  | nil => exact h
  | cons call calls ih => exact ih (h.call hallowed.1) (hallowed.2 _ rfl)

end IoWriteState

/-! ## Random access writing -/

theorem getElem?_writeAt_ne (file : Bytes) {offset j : ℕ} (hne : j ≠ offset) (a b : UInt8) :
    (writeAt file ⟨offset, [a]⟩)[j]? = (writeAt file ⟨offset, [b]⟩)[j]? := by
  unfold writeAt
  rw [if_neg (cons_ne_nil _ _), if_neg (cons_ne_nil _ _)]
  generalize hbefore : (file ++ replicate (offset - file.length) 0).take offset = before
  have hlen : before.length = offset := by
    rw [← hbefore, length_take, length_append, length_replicate]
    omega
  rw [append_assoc, append_assoc]
  rcases Nat.lt_or_gt_of_ne hne with hlt | hgt
  · rw [getElem?_append_left (by omega), getElem?_append_left (by omega)]
  · have hbehind (byte : UInt8) (rest : Bytes) :
        (before ++ ([byte] ++ rest))[j]? = rest[j - before.length - 1]? := by
      rw [getElem?_append_right (by omega), getElem?_append_right (by simp; omega)]
      rfl
    rw [hbehind, hbehind]
    rfl

theorem getElem?_writeAt_self (file : Bytes) (offset : ℕ) (byte : UInt8) :
    (writeAt file ⟨offset, [byte]⟩)[offset]? = some byte := by
  rw [getElem?_writeAt (cons_ne_nil _ _) file offset (.inr le_rfl)]
  simp

/-- **Buffered writing with seek is random access writing** for every sequence
of calls whose seeks are allowed where they are made; and where a seek is not
allowed, the byte that is written next is in the wrong place. -/
theorem ioWrite_randomAccess (bufferSize : ℕ+) (file : Bytes) (calls : List IoWriteCall)
    (hallowed : (ioWriteNew bufferSize file).SeeksAllowed calls) :
    (ioWriteNew bufferSize file).written calls = RandomFile.written ⟨file, 0⟩ calls ∧
      ∀ position,
        ¬ (calls.foldl IoWriteState.call (ioWriteNew bufferSize file)).SeekAllowed
            (.seek position) →
        ∃ byte, (ioWriteNew bufferSize file).written (calls ++ [.seek position, .write [byte]])
          ≠ RandomFile.written ⟨file, 0⟩ (calls ++ [.seek position, .write [byte]]) := by
  have hrefines := (IoWriteState.ioWriteNew_refines bufferSize file).calls hallowed
  refine ⟨hrefines.ioWriteClose, fun position hseek => ?_⟩
  generalize hthis : calls.foldl IoWriteState.call (ioWriteNew bufferSize file) = this at *
  generalize hdirect : calls.foldl RandomFile.call ⟨file, 0⟩ = direct at *
  have hskip : position = this.position := not_not.mp (fun h => hseek (.inl h))
  have hnext : this.position ≠ this.next := fun h => hseek (.inr h)
  have hne : position ≠ direct.position := by rwa [hskip, ← hrefines.position]
  -- the seek does nothing, so the byte goes where it would have gone without it
  have hcode (byte : UInt8) :
      (ioWriteNew bufferSize file).written (calls ++ [.seek position, .write [byte]])
        = writeAt direct.file ⟨direct.position, [byte]⟩ := by
    have hstay : this.call (.seek position) = this := if_pos hskip
    unfold IoWriteState.written
    rw [foldl_append, hthis]
    show ((this.call (.seek position)).call (.write [byte])).ioWriteClose.file = _
    rw [hstay]
    exact (hrefines.call (show this.SeekAllowed (.write [byte]) from trivial)).ioWriteClose
  have hmeant (byte : UInt8) :
      RandomFile.written ⟨file, 0⟩ (calls ++ [.seek position, .write [byte]])
        = writeAt direct.file ⟨position, [byte]⟩ := by
    unfold RandomFile.written
    rw [foldl_append, hdirect]
    rfl
  by_contra hall
  push Not at hall
  have hat (byte : UInt8) : (writeAt direct.file ⟨direct.position, [byte]⟩)[position]? = some byte := by
    rw [← hcode, hall byte, hmeant]
    exact getElem?_writeAt_self _ _ _
  have hsame := getElem?_writeAt_ne direct.file hne 0 1
  rw [hat, hat] at hsame
  cases hsame

/-- Sequences with seeks forth and back, for a buffer of two bytes. -/
theorem ioWrite_randomAccess_backAndForth :
    (ioWriteNew 2 []).written [.write [1, 2, 3], .seek 1, .write [4], .flush, .seek 5, .write [5]]
      = [1, 4, 3, 0, 0, 5] :=
  (ioWrite_randomAccess 2 []
    [.write [1, 2, 3], .seek 1, .write [4], .flush, .seek 5, .write [5]] (by decide)).1

/-- Two bytes, back to the beginning, and a third byte: it ends up behind the
two instead of over the first. -/
theorem ioWrite_seekBack :
    (ioWriteNew 8 []).written [.write [65, 66], .seek 0, .write [67]] = [65, 66, 67] ∧
      RandomFile.written ⟨[], 0⟩ [.write [65, 66], .seek 0, .write [67]] = [67, 66] := by
  decide

/-! ## Blocks -/

/-- The calls of `restoreFile` for the blocks that it writes. -/
def blockCalls (writes : List BlockDeltaWrite) : List IoWriteCall :=
  writes.flatMap (fun write => [.seek write.offset, .write write.block])

theorem randomFile_blockCalls (writes : List BlockDeltaWrite) (direct : RandomFile) :
    ((blockCalls writes).foldl RandomFile.call direct).file = writes.foldl writeAt direct.file := by
  induction writes generalizing direct with
  | nil => rfl
  | cons write writes ih => exact ih ⟨writeAt direct.file write, write.offset + write.block.length⟩

namespace IoWriteState

variable {this : IoWriteState}

/-- The tracked position is at most the offset of the driver, and it does not
go back. -/
structure Tracked (this : IoWriteState) (low : ℕ) : Prop where
  low_le : low ≤ this.position
  le_offset : this.position ≤ this.offset

theorem Tracked.writeLoop {low : ℕ} (buffer : Bytes) (fuel : ℕ) (h : this.Tracked low) :
    (writeLoop buffer fuel this).Tracked low := by
  induction fuel generalizing this with
  | zero => exact h
  | succ fuel ih =>
    have hdrain : (this.process (some buffer)).drain.Tracked low := by
      unfold drain
      split
      · exact ⟨h.low_le.trans (Nat.le_add_right _ _), Nat.add_le_add_right h.le_offset _⟩
      · exact ⟨h.low_le, h.le_offset⟩
    show (if (this.process (some buffer)).drain.filter.inputSame then
      IoWriteState.writeLoop buffer fuel (this.process (some buffer)).drain
      else (this.process (some buffer)).drain).Tracked low
    split
    · exact ih hdrain
    · exact hdrain

theorem Tracked.ioWrite {low : ℕ} (h : this.Tracked low) (buffer : Bytes) :
    (this.ioWrite buffer).Tracked low := by
  unfold IoWriteState.ioWrite
  split
  · exact h
  · exact h.writeLoop buffer _

theorem Tracked.ioWriteSeek {low : ℕ} (h : this.Tracked low) (position : ℕ) :
    (this.ioWriteSeek position).Tracked position := by
  unfold IoWriteState.ioWriteSeek
  split
  next heq => exact ⟨heq.le, h.le_offset⟩
  next => exact ⟨le_rfl, le_rfl⟩

/-- **The seeks to blocks that lie apart are allowed**: each block begins
before the last one that was written, or behind it. -/
theorem Refines.blockCalls {direct : RandomFile} {low : ℕ} (writes : List BlockDeltaWrite)
    (h : this.Refines direct) (htracked : this.Tracked low)
    (hfirst : ∀ write ∈ writes.head?, write.offset < low ∨ this.next ≤ write.offset)
    (hapart : writes.IsChain (fun write write' =>
      write'.offset < write.offset ∨ write.offset + write.block.length ≤ write'.offset)) :
    this.SeeksAllowed (blockCalls writes) := by
  induction writes generalizing this direct low with
  | nil => trivial
  | cons write writes ih =>
    have hseek : this.SeekAllowed (.seek write.offset) := by
      have hlow := htracked.low_le
      have hle := htracked.le_offset
      have hnext : this.offset ≤ this.next := Nat.le_add_right _ _
      show write.offset ≠ this.position ∨ this.position = this.next
      rcases hfirst write rfl with hbefore | hbehind
      · exact .inl (by omega)
      · by_cases heq : write.offset = this.position
        · exact .inr (by omega)
        · exact .inl heq
    have hrefines := h.call hseek
    have hwrite := hrefines.call (show SeekAllowed _ (.write write.block) from trivial)
    have hend := hwrite.position
    refine ⟨hseek, fun seeked hseeked => ?_⟩
    cases hseeked
    refine ⟨trivial, fun written hwritten => ?_⟩
    cases hwritten
    refine ih hwrite ((htracked.ioWriteSeek write.offset).ioWrite write.block) ?_ hapart.tail
    intro write' hwrite'
    rw [hend]
    exact hapart.rel_head? hwrite'

end IoWriteState

/-- **A restore writes its blocks at their places.** It writes different blocks
one after the other, so it is not concerned by the seeks that go wrong. -/
theorem ioWrite_blockWrites (bufferSize blockSize : ℕ+) (file content : Bytes) (list : List ℕ)
    (hlist : list.Nodup) :
    (ioWriteNew bufferSize file).written (blockCalls (list.map (blockWrite blockSize content)))
      = (list.map (blockWrite blockSize content)).foldl writeAt file := by
  have hapart : (list.map (blockWrite blockSize content)).IsChain (fun write write' =>
      write'.offset < write.offset ∨ write.offset + write.block.length ≤ write'.offset) := by
    refine (isChain_map _).mpr (List.Pairwise.imp ?_ hlist).isChain
    intro i j hne
    have hlen : (Chunks.chunk blockSize content i).length ≤ blockSize :=
      (Chunks.length_chunk ..).trans_le (Nat.min_le_left _ _)
    show j * (blockSize : ℕ) < i * blockSize ∨
      i * blockSize + (Chunks.chunk blockSize content i).length ≤ j * blockSize
    rcases Nat.lt_or_gt_of_ne hne with hlt | hgt
    · have hmul : (i + 1) * (blockSize : ℕ) ≤ j * blockSize := Nat.mul_le_mul_right _ hlt
      exact .inr ((Nat.add_le_add_left hlen _).trans (Nat.succ_mul i blockSize ▸ hmul))
    · exact .inl (Nat.mul_lt_mul_of_pos_right hgt blockSize.pos)
  have hrefines := IoWriteState.ioWriteNew_refines bufferSize file
  have htracked : (ioWriteNew bufferSize file).Tracked 0 := ⟨le_rfl, le_rfl⟩
  have hallowed := hrefines.blockCalls _ htracked (fun write _ => .inr (Nat.zero_le _)) hapart
  exact (hrefines.calls hallowed).ioWriteClose.trans (randomFile_blockCalls _ ⟨file, 0⟩)

/-- The last block first, and a buffer that holds less than a block. -/
theorem ioWrite_blockWrites_sample :
    (ioWriteNew 2 [0, 0, 0, 0]).written (blockCalls ([2, 0].map (blockWrite 3 [1, 2, 3, 4, 5, 6, 7])))
      = [1, 2, 3, 0, 0, 0, 7] :=
  ioWrite_blockWrites 2 3 _ _ _ (by decide)

end PgxBackup
