import PgxBackup.Text

/-!
# Filter groups

A group passes its input through a chain of filters. A filter that produces
output has a buffer for it, which is the input of all filters behind it up to
the next filter that produces output. A filter that could not empty its input
asks for the same input again, so the group goes on at the last such filter
first. The end of the input is passed on by setting the buffer of a filter
that is done to `NULL`.
-/

namespace PgxBackup

/-- The data of a `Buffer` and its size. -/
structure FilterBuffer where
  size : ℕ
  data : Bytes
  deriving DecidableEq, Repr

def FilterBuffer.remains (buffer : FilterBuffer) : ℕ := buffer.size - buffer.data.length

def FilterBuffer.isFull (buffer : FilterBuffer) : Bool := buffer.remains = 0

/-- Append data that fits. -/
def FilterBuffer.cat (buffer : FilterBuffer) (data : Bytes) : FilterBuffer :=
  { buffer with data := buffer.data ++ data }

def FilterBuffer.usedZero (buffer : FilterBuffer) : FilterBuffer := { buffer with data := [] }

/-! ## Filters -/

/-- **The interface of a filter** (`IoFilterInterface`) for a type of drivers:
a filter that only observes its input, or one that appends to an output
buffer, with the functions it may have. The results of filters are left
out. -/
inductive IoFilterInterface (δ : Type)
  | filterIn (process : δ → Bytes → δ)
  | filterInOut (process : δ → Option Bytes → FilterBuffer → δ × Bytes)
      (done inputSame : Option (δ → Bool))

section Interface

variable {δ : Type}

def IoFilterInterface.isInOut : IoFilterInterface δ → Bool
  | .filterIn _ => false
  | .filterInOut _ _ _ => true

def IoFilterInterface.isInputSame : IoFilterInterface δ → δ → Bool
  | .filterInOut _ _ (some inputSame), driver => inputSame driver
  | _, _ => false

/-- If there is no function for it a filter is done when it does not need the
same input. -/
def IoFilterInterface.isDone : IoFilterInterface δ → δ → Bool
  | .filterInOut _ (some done) _, driver => done driver
  | interface, driver => !interface.isInputSame driver

def IoFilterInterface.observe : IoFilterInterface δ → δ → Bytes → δ
  | .filterIn process, driver, input => process driver input
  | .filterInOut _ _ _, driver, _ => driver

def IoFilterInterface.call : IoFilterInterface δ → δ → Option Bytes → FilterBuffer → δ × Bytes
  | .filterIn _, driver, _, _ => (driver, [])
  | .filterInOut process _ _, driver, input, output => process driver input output

end Interface

/-- `IoFilter`. -/
structure IoFilter where
  driverType : Type
  interface : IoFilterInterface driverType
  driver : driverType
  /-- Has the filter started flushing? -/
  flushing : Bool

/-- Does the filter produce output? (`ioFilterOutput`) -/
def ioFilterOutput (this : IoFilter) : Bool := this.interface.isInOut

/-- Does the filter need the same input again? (`ioFilterInputSame`) -/
def ioFilterInputSame (this : IoFilter) : Bool := this.interface.isInputSame this.driver

/-- Is the filter done? (`ioFilterDone`) It is not before it flushes. -/
def ioFilterDone (this : IoFilter) : Bool :=
  if this.flushing then this.interface.isDone this.driver else false

def filterInputError : Error := ⟨.assertError, "expected data or flush".toList⟩

def filterFlushError : Error := ⟨.assertError, "no data allowed after flush".toList⟩

def filterOutputError : Error :=
  ⟨.assertError, "expected input to be consumed or some output".toList⟩

def ioFilterCheck (this : IoFilter) (input : Option Bytes) : Option Error :=
  if input = some [] then some filterInputError
  else if this.flushing ∧ input.isSome then some filterFlushError
  else none

/-- Pass input to a filter that only observes it (`ioFilterProcessIn`). -/
def ioFilterProcessIn (this : IoFilter) (input : Option Bytes) : Except Error IoFilter :=
  match ioFilterCheck this input with
  | some error => .error error
  | none =>
    match input with
    | none => .ok { this with flushing := true }
    | some input => .ok { this with driver := this.interface.observe this.driver input }

/-- The call of the driver, unless the filter is done. -/
def ioFilterInOut (this : IoFilter) (input : Option Bytes) (output : FilterBuffer) : IoFilter × Bytes :=
  if ioFilterDone this then (this, [])
  else
    let result := this.interface.call this.driver input output
    ({ this with driver := result.1 }, result.2)

/-- **Pass input to a filter that produces output** (`ioFilterProcessInOut`). -/
def ioFilterProcessInOut (this : IoFilter) (input : Option Bytes) (output : FilterBuffer) :
    Except Error (IoFilter × FilterBuffer) :=
  match ioFilterCheck this input with
  | some error => .error error
  | none =>
    let this := { this with flushing := this.flushing || input.isNone }
    let result := ioFilterInOut this input output
    let output := output.cat result.2
    -- there must be some output, otherwise there is no point in requesting the same input
    if ioFilterInputSame result.1 && output.data.isEmpty then .error filterOutputError
    else .ok (result.1, output)

/-! ## The buffer filter -/

/-- `IoBuffer`. -/
structure IoBuffer where
  inputPos : ℕ
  inputSame : Bool
  deriving DecidableEq, Repr

/-- Move data from the input buffer to the output buffer (`ioBufferProcess`). -/
def ioBufferProcess (this : IoBuffer) (input : Option Bytes) (output : FilterBuffer) :
    IoBuffer × Bytes :=
  let input := input.getD []
  let copySize := min (input.length - this.inputPos) output.remains
  (if this.inputPos + copySize = input.length then { inputPos := 0, inputSame := false }
    else { inputPos := this.inputPos + copySize, inputSame := true },
    (input.drop this.inputPos).take copySize)

/-- `ioBufferNew`. -/
def ioBufferNew : IoFilter where
  driverType := IoBuffer
  interface := .filterInOut ioBufferProcess none (some IoBuffer.inputSame)
  driver := { inputPos := 0, inputSame := false }
  flushing := false

/-! ## The size filter -/

/-- Count the bytes of the input (`ioSizeProcess`). -/
def ioSizeProcess (this : ℕ) (input : Bytes) : ℕ := this + input.length

/-- `ioSizeNew`. -/
def ioSizeNew : IoFilter where
  driverType := ℕ
  interface := .filterIn ioSizeProcess
  driver := 0
  flushing := false

/-! ## Groups -/

/-- A filter of the group and its output buffer, if it is not `NULL`
(`IoFilterData`). Its input is found by its place in the list. -/
structure IoFilterData where
  filter : IoFilter
  output : Option FilterBuffer

/-- `IoFilterGroup`. -/
structure IoFilterGroup where
  filterList : List IoFilterData
  inputSame : Bool
  done : Bool

/-- The filters with a buffer filter at the end unless the last one produces
output. -/
def ioFilterGroupFilters (filters : List IoFilter) : List IoFilter :=
  if filters.getLast?.all (fun filter => !ioFilterOutput filter) then filters ++ [ioBufferNew]
  else filters

/-- Create the output buffers: all filters that produce output have one, except
the last one. -/
def ioFilterGroupBuffers (bufferSize : ℕ) : List IoFilter → List IoFilterData
  | [] => []
  | [filter] => [{ filter := filter, output := none }]
  | filter :: filters =>
    { filter := filter
      output := if ioFilterOutput filter then some { size := bufferSize, data := [] } else none }
      :: ioFilterGroupBuffers bufferSize filters

/-- **Open a group** (`ioFilterGroupOpen`). -/
def ioFilterGroupOpen (bufferSize : ℕ) (filters : List IoFilter) : IoFilterGroup where
  filterList := ioFilterGroupBuffers bufferSize (ioFilterGroupFilters filters)
  inputSame := false
  done := false

/-- What is left when filters were processed: the filters, whether one of them
needs the same input, and whether the input was used up by the first one that
produces output. -/
structure FilterPass where
  filterList : List IoFilterData
  inputSame : Bool
  inputUsed : Bool

/-- Clear the buffer of a filter when its data was used. -/
def IoFilterData.clearIf (this : IoFilterData) (used : Bool) : IoFilterData :=
  if used then { this with output := this.output.map FilterBuffer.usedZero } else this

/-- Set the buffer of a filter that is done and has no more output to
`NULL`. -/
def IoFilterData.nullIf (this : IoFilterData) : IoFilterData :=
  match this.output with
  | some output =>
    if ioFilterDone this.filter && output.data.isEmpty then { this with output := none } else this
  | none => this

def IoFilterData.data (this : IoFilterData) : Option Bytes := this.output.map FilterBuffer.data

/-- **Process filters forward** from the first one, which has this input. The
loop ends at a filter that needs more data to fill its buffer. -/
def filterPass (input : Option Bytes) : List IoFilterData → Except Error FilterPass
  | [] => .ok { filterList := [], inputSame := false, inputUsed := false }
  | data :: rest =>
    if ioFilterOutput data.filter then
      match data.output with
      | some output =>
        if ioFilterDone data.filter then do
          -- the filter has no more output than what is in the buffer
          let data := data.nullIf
          let next ← filterPass data.data rest
          pure { filterList := data.clearIf next.inputUsed :: next.filterList
                 inputSame := next.inputSame, inputUsed := false }
        else do
          let (filter, output) ← ioFilterProcessInOut data.filter input output
          let data := { filter := filter, output := some output }
          if !output.isFull && !ioFilterDone filter then
            -- more data is required
            pure { filterList := data :: rest, inputSame := ioFilterInputSame filter
                   inputUsed := !ioFilterInputSame filter }
          else
            let data := data.nullIf
            let next ← filterPass data.data rest
            pure { filterList := data.clearIf next.inputUsed :: next.filterList
                   inputSame := ioFilterInputSame filter || next.inputSame
                   inputUsed := !ioFilterInputSame filter }
      | none => do
        let next ← filterPass none rest
        pure { filterList := data :: next.filterList, inputSame := next.inputSame
               inputUsed := false }
    else do
      let filter ← if ioFilterDone data.filter then pure data.filter
        else ioFilterProcessIn data.filter input
      let next ← filterPass input rest
      pure { filterList := { data with filter := filter } :: next.filterList
             inputSame := next.inputSame, inputUsed := next.inputUsed }

/-- **Go on at the last filter that needs the same input**, if there is one. -/
def filterResume (input : Option Bytes) : List IoFilterData → Option (Except Error FilterPass)
  | [] => none
  | data :: rest =>
    let dataInput := if ioFilterOutput data.filter then data.data else input
    match filterResume dataInput rest with
    | some next => some (do
      let next ← next
      if ioFilterOutput data.filter then
        pure { next with filterList := data.clearIf next.inputUsed :: next.filterList
                         inputUsed := false }
      else pure { next with filterList := data :: next.filterList })
    | none =>
      if ioFilterInputSame data.filter then some (filterPass input (data :: rest)) else none

def setOutput (output : FilterBuffer) : List IoFilterData → List IoFilterData
  | [] => []
  | [data] => [{ data with output := some output }]
  | data :: rest => data :: setOutput output rest

/-- The output buffer of the call: that of the last filter, unless it was set
to `NULL` because it is empty. -/
def getOutput (output : FilterBuffer) (filterList : List IoFilterData) : FilterBuffer :=
  match filterList.getLast? with
  | some data => data.output.getD output
  | none => output

/-- **The loop of `ioFilterGroupProcess`**, which takes a number of turns. -/
def filterLoop (input : Option Bytes) (output : FilterBuffer) :
    ℕ → Bool → List IoFilterData → Option (Except Error (List IoFilterData))
  | 0, _, _ => none
  | fuel + 1, inputSame, filterList =>
    let turn :=
      if inputSame then
        (filterResume input filterList).map (fun next => next.map fun pass =>
          { pass with inputSame := true })
      else some (filterPass input filterList)
    match turn with
    | none => some (.ok filterList)
    | some (.error error) => some (.error error)
    | some (.ok pass) =>
      if !(getOutput output pass.filterList).isFull && pass.inputSame then
        filterLoop input output fuel true pass.filterList
      else some (.ok pass.filterList)

/-- **Process input** (`ioFilterGroupProcess`). `NULL` input flushes. -/
def ioFilterGroupProcess (fuel : ℕ) (this : IoFilterGroup) (input : Option Bytes)
    (output : FilterBuffer) : Option (Except Error (IoFilterGroup × FilterBuffer)) :=
  (filterLoop input output fuel this.inputSame (setOutput output this.filterList)).map
    fun result => result.map fun filterList =>
      let inputSame := filterList.any (fun data => ioFilterInputSame data.filter)
      ({ filterList := filterList, inputSame := inputSame
         done := !inputSame && filterList.all (fun data => ioFilterDone data.filter) },
        getOutput output filterList)

/-! ## Processing a stream -/

/-- **Process all chunks of an input and flush** until the group is done, as
`ioWrite` and `ioRead` do, with an output buffer for each call. While the group
needs the same input it is passed again. What is returned are the bytes that
were added to the output buffers. -/
def processStream (limit : ℕ) (outputs : ℕ → FilterBuffer) :
    ℕ → ℕ → Option Bytes → List Bytes → IoFilterGroup →
      Option (Except Error (Bytes × IoFilterGroup))
  | 0, _, _, _, _ => none
  | fuel + 1, call, input, chunks, this =>
    if this.done then some (.ok ([], this))
    else
      let (input, chunks) :=
        if this.inputSame then (input, chunks) else (chunks.head?, chunks.tail)
      match ioFilterGroupProcess limit this input (outputs call) with
      | none => none
      | some (.error error) => some (.error error)
      | some (.ok (this, output)) =>
        (processStream limit outputs fuel (call + 1) input chunks this).map
          fun result => result.map fun (data, this) =>
            (output.data.drop (outputs call).data.length ++ data, this)

end PgxBackup
