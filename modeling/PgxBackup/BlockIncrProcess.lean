import PgxBackup.BlockIncr

/-!
# The buffers of the block incremental filter

The filter gets the file in buffers of any size and writes to buffers of any
size. A buffer of input may hold more than a block needs, or less, and a
super block may be larger than what is left of the output. The filter then
asks for the same input again, and remembers how much of it was copied and
how much of what is ready was written. Input is not copied while something
is left to be written.

The assertions of `blockMapWrite` are omitted from production builds, so how
the map is written is a parameter: with the assertions it is
`BlockIncrState.mapBytes`.
-/

namespace PgxBackup

/-- The fields of `BlockIncr` that a call changes. -/
structure BlockIncr where
  state : BlockIncrState
  /-- Block that is being filled. -/
  block : List UInt8
  /-- Output that is ready. -/
  blockOut : List UInt8
  /-- How much of it was written. -/
  blockOutOffset : ℕ
  /-- How much of the input was copied. -/
  inputOffset : ℕ
  inputSame : Bool
  done : Bool
  blockMapOutSize : ℕ
  deriving Repr

/-- The filter before the first call. -/
def BlockIncr.new (param : BlockIncrParam) : BlockIncr :=
  { state := .new param
    block := []
    blockOut := []
    blockOutOffset := 0
    inputOffset := 0
    inputSame := false
    done := false
    blockMapOutSize := 0 }

/-- An output buffer at a call: it may hold output of an earlier call, and
has space for at least one byte. -/
structure OutputBuffer where
  used : ℕ
  remains : ℕ
  remains_pos : 0 < remains

/-! ## One turn of the loop -/

/-- Get more block data, if not flushing out. -/
def BlockIncr.copyInput (param : BlockIncrParam) (input : List UInt8) (this : BlockIncr) :
    BlockIncr :=
  if this.blockOutOffset = 0 then
    let bufRemains := param.blockSize - this.block.length
    if input.length - this.inputOffset ≤ bufRemains then
      -- All input can be copied
      { this with
          block := this.block ++ input.drop this.inputOffset
          inputOffset := 0
          inputSame := false }
    else
      { this with
          block := this.block ++ (input.drop this.inputOffset).take bufRemains
          inputOffset := this.inputOffset + bufRemains
          inputSame := true }
  else this

/-- Add the block if it is full, or if there is no more to come. -/
def BlockIncr.endBlock (pipe : BlockPipe) (param : BlockIncrParam) (this : BlockIncr) :
    BlockIncr :=
  if this.done ∧ 0 < this.block.length ∨ this.block.length = param.blockSize then
    { this with state := this.state.addBlock pipe param this.block, block := [] }
  else this

/-- Write the super block if it is complete. -/
def BlockIncr.endSuperBlock (pipe : BlockPipe) (param : BlockIncrParam) (this : BlockIncr) :
    BlockIncr :=
  let (state, out) := this.state.writeSuperBlock pipe param this.done
  { this with state := state, blockOut := this.blockOut ++ out }

/-- Write the map at the end, if it is needed. -/
def BlockIncr.endMap (param : BlockIncrParam)
    (mapBytes : BlockIncrState → Except Error (List UInt8)) (this : BlockIncr) :
    Except Error BlockIncr :=
  if this.done ∧ this.blockOutOffset = 0 ∧ this.state.mapNeeded param then do
    let bytes ← mapBytes this.state
    return { this with blockOut := this.blockOut ++ bytes, blockMapOutSize := bytes.length }
  else return this

/-- Copy to the output buffer what is ready, if it will fit, or as much of
it as possible. Also returns what is copied. -/
def BlockIncr.copyOutput (bufRemains : ℕ) (this : BlockIncr) : BlockIncr × List UInt8 :=
  match this.state.blockOutWrite with
  | some _ => (this, [])
  | none =>
    let ready := this.blockOut.drop this.blockOutOffset
    if 0 < ready.length then
      if ready.length ≤ bufRemains then
        ({ this with
            blockOut := []
            blockOutOffset := 0
            inputSame := decide (this.inputOffset ≠ 0) }, ready)
      else
        ({ this with
            blockOutOffset := this.blockOutOffset + bufRemains
            inputSame := true }, ready.take bufRemains)
    else (this, [])

/-- One turn of the loop; there is no input when the file is done. -/
def BlockIncr.turn (pipe : BlockPipe) (param : BlockIncrParam)
    (mapBytes : BlockIncrState → Except Error (List UInt8)) (input : Option (List UInt8))
    (bufRemains : ℕ) (this : BlockIncr) : Except Error (BlockIncr × List UInt8) := do
  let this := match input with
    | some input => this.copyInput param input
    | none => this
  let this ← ((this.endBlock pipe param).endSuperBlock pipe param).endMap param mapBytes
  return this.copyOutput bufRemains

/-! ## Calls -/

/-- Loop until the input is consumed or there is output. -/
def blockIncrLoop (pipe : BlockPipe) (param : BlockIncrParam)
    (mapBytes : BlockIncrState → Except Error (List UInt8)) (input : Option (List UInt8))
    (output : OutputBuffer) : ℕ → BlockIncr → Option (Except Error (BlockIncr × List UInt8))
  | 0, _ => none
  | fuel + 1, this =>
    match this.turn pipe param mapBytes input output.remains with
    | .error e => some (.error e)
    | .ok (this, out) =>
      if this.inputSame ∧ output.used + out.length = 0 then
        blockIncrLoop pipe param mapBytes input output fuel this
      else some (.ok (this, out))

/-- **One call of the filter.** Also returns what is written to the output
buffer. A turn that does not end the loop copies input, so the length of the
input bounds their number. -/
def blockIncrProcess (pipe : BlockPipe) (param : BlockIncrParam)
    (mapBytes : BlockIncrState → Except Error (List UInt8)) (input : Option (List UInt8))
    (output : OutputBuffer) (this : BlockIncr) : Option (Except Error (BlockIncr × List UInt8)) :=
  blockIncrLoop pipe param mapBytes input output ((input.getD []).length + 1)
    { this with done := input.isNone }

def blockIncrDone (this : BlockIncr) : Bool := this.done && !this.inputSame

/-- Should the same input be provided again? -/
def blockIncrInputSame (this : BlockIncr) : Bool := this.inputSame

/-- **The calls for a file** in buffers, from a call on: a buffer is
presented until the filter has consumed it, then there is no input until the
filter is done. The output is put together, and the size of the map is
returned with it. -/
def blockIncrCalls (pipe : BlockPipe) (param : BlockIncrParam)
    (mapBytes : BlockIncrState → Except Error (List UInt8)) (outputs : ℕ → OutputBuffer) :
    ℕ → ℕ → List (List UInt8) → BlockIncr → List UInt8 →
      Option (Except Error (List UInt8 × ℕ))
  | 0, _, _, _, _ => none
  | fuel + 1, call, inputs, this, written =>
    match blockIncrProcess pipe param mapBytes inputs.head? (outputs call) this with
    | none => none
    | some (.error e) => some (.error e)
    | some (.ok (this, out)) =>
      if blockIncrDone this then some (.ok (written ++ out, this.blockMapOutSize))
      else
        blockIncrCalls pipe param mapBytes outputs fuel (call + 1)
          (if blockIncrInputSame this then inputs else inputs.tail) this (written ++ out)

/-- What a backup of a file in one piece gives: the output and the size of
the map. -/
def blockIncrOutcome (pipe : BlockPipe) (param : BlockIncrParam)
    (mapBytes : BlockIncrState → Except Error (List UInt8)) (content : List UInt8) :
    Except Error (List UInt8 × ℕ) := do
  let (s, out) := blockIncrEnd pipe param content
  if s.mapNeeded param then
    let bytes ← mapBytes s
    return (out ++ bytes, bytes.length)
  else return (out, 0)

end PgxBackup
