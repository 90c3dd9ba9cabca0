import Mathlib.Tactic.Common
import PgxBackup.FilterGroup

/-!
# The contract of filters

A filter that produces output is fed the chunks of a stream, each of them again
while it asks for the same input, and then `NULL` until it is done. It meets
its contract if what it has appended to its output buffers by then is the image
of the stream. It has to come to an end for each input if there is some space
in every output buffer.
-/

namespace PgxBackup

open List

/-! ## Calls -/

/-- Input that a filter may be given next: the pending input if it asked for
the same again, and only `NULL` once the stream has ended. -/
structure InputAllowed (ended : Bool) (pending : Option (Option Bytes)) (input : Option Bytes) :
    Prop where
  same : ∀ same, pending = some same → input = same
  nonempty : input ≠ some []
  flush : ended = true → input = none

variable {ended : Bool} {pending : Option (Option Bytes)}

theorem InputAllowed.length_pos {chunk : Bytes}
    (h : InputAllowed ended pending (some chunk)) : 0 < chunk.length := by
  refine length_pos_iff.mpr fun hnil => h.nonempty ?_
  rw [hnil]

theorem InputAllowed.not_ended {chunk : Bytes}
    (h : InputAllowed ended pending (some chunk)) : ended = false := by
  cases ended with
  | false => rfl
  | true => cases h.flush rfl

/-- When nothing is pending the stream may end, or go on if it has not ended. -/
theorem InputAllowed.null (ended : Bool) : InputAllowed ended none none :=
  ⟨nofun, nofun, fun _ => rfl⟩

theorem InputAllowed.data {data : Bytes} (hdata : data ≠ []) :
    InputAllowed false none (some data) :=
  ⟨nofun, fun heq => hdata (Option.some.inj heq), nofun⟩

/-- The stream that was fed: input that is passed again is not new. -/
def feed (stream : Bytes) (pending : Option (Option Bytes)) (input : Option Bytes) : Bytes :=
  match pending with
  | none => stream ++ input.getD []
  | some _ => stream

/-- The input that is passed again if the filter needs it. -/
def pendingInput (filter : IoFilter) (input : Option Bytes) : Option (Option Bytes) :=
  if ioFilterInputSame filter then some input else none

/-- **A filter that was fed**: the stream so far and whether it has ended, the
pending input, what was appended to the output buffers, and the filter. -/
inductive FilterFed (initial : IoFilter) :
    Bytes → Bool → Option (Option Bytes) → Bytes → IoFilter → Prop
  | new : FilterFed initial [] false none [] initial
  | call {stream produced data : Bytes} {ended : Bool} {pending : Option (Option Bytes)}
      {filter filter' : IoFilter} {input : Option Bytes} {output : FilterBuffer}
      (hfed : FilterFed initial stream ended pending produced filter)
      (hdone : ioFilterDone filter = false) (hinput : InputAllowed ended pending input)
      (hremains : 0 < output.remains)
      (hprocess : ioFilterProcessInOut filter input output = .ok (filter', output.cat data)) :
      FilterFed initial (feed stream pending input) input.isNone (pendingInput filter' input)
        (produced ++ data) filter'

/-- The calls with the same input come to an end. -/
inductive FilterSame (input : Option Bytes) : IoFilter → Prop
  | intro (filter : IoFilter)
      (hnext : ∀ output filter' output', 0 < output.remains →
        ioFilterProcessInOut filter input output = .ok (filter', output') →
          ioFilterInputSame filter' = true → FilterSame input filter') : FilterSame input filter

/-- The calls that flush come to an end. -/
inductive FilterFlush : IoFilter → Prop
  | intro (filter : IoFilter)
      (hnext : ∀ output filter' output', 0 < output.remains →
        ioFilterProcessInOut filter none output = .ok (filter', output') →
          ioFilterDone filter' = false → FilterFlush filter') : FilterFlush filter

/-- **The contract of a filter that produces output**: the function of the
stream that it computes. -/
structure InOutContract (initial : IoFilter) (fn : Bytes → Bytes) : Prop where
  output : ioFilterOutput initial = true
  flushing : initial.flushing = false
  inputSame : ioFilterInputSame initial = false
  process : ∀ stream ended pending produced filter input output,
    FilterFed initial stream ended pending produced filter → ioFilterDone filter = false →
    InputAllowed ended pending input → 0 < output.remains →
    ∃ filter' data, data.length ≤ output.remains ∧
      ioFilterProcessInOut filter input output = .ok (filter', output.cat data)
  produced : ∀ stream ended pending produced filter,
    FilterFed initial stream ended pending produced filter → ioFilterDone filter = true →
      produced = fn stream ∧ ioFilterInputSame filter = false
  same : ∀ stream ended pending produced filter input,
    FilterFed initial stream ended pending produced filter → InputAllowed ended pending input →
      FilterSame input filter
  flush : ∀ stream ended pending produced filter,
    FilterFed initial stream ended pending produced filter → InputAllowed ended pending none →
      FilterFlush filter

/-- **The contract of a filter**: one that only observes its input passes it
on. -/
def FilterContract (initial : IoFilter) (fn : Bytes → Bytes) : Prop :=
  if ioFilterOutput initial then InOutContract initial fn
  else initial.flushing = false ∧ fn = id

theorem InOutContract.contract {initial : IoFilter} {fn : Bytes → Bytes}
    (h : InOutContract initial fn) : FilterContract initial fn := by
  unfold FilterContract
  rwa [if_pos h.output]

theorem ioSizeNew_contract : FilterContract ioSizeNew id := ⟨rfl, rfl⟩

/-! ## What a call changes -/

variable {filter : IoFilter}

theorem ioFilterCheck_eq_none
    {input : Option Bytes} (hflushing : filter.flushing = ended)
    (hinput : InputAllowed ended pending input) : ioFilterCheck filter input = none := by
  unfold ioFilterCheck
  rw [if_neg hinput.nonempty, if_neg]
  rintro ⟨hflush, hsome⟩
  rw [hinput.flush (hflushing.symm.trans hflush)] at hsome
  cases hsome

theorem ioFilterProcessInOut_ok {filter' : IoFilter} {input : Option Bytes}
    {output output' : FilterBuffer} (h : ioFilterProcessInOut filter input output = .ok (filter', output')) :
    filter'.flushing = (filter.flushing || input.isNone) ∧
      ioFilterOutput filter' = ioFilterOutput filter ∧
      ∃ data, output' = output.cat data := by
  have hinOut (this : IoFilter) : (ioFilterInOut this input output).1.flushing = this.flushing ∧
      ioFilterOutput (ioFilterInOut this input output).1 = ioFilterOutput this := by
    unfold ioFilterInOut
    split
    · exact ⟨rfl, rfl⟩
    · exact ⟨rfl, rfl⟩
  unfold ioFilterProcessInOut at h
  split at h
  · cases h
  · dsimp only at h
    split at h
    · cases h
    · obtain ⟨hfilter, houtput⟩ := ok_inj h
      rw [← hfilter, ← houtput]
      have hcall := hinOut { filter with flushing := filter.flushing || input.isNone }
      exact ⟨hcall.1, hcall.2, _, rfl⟩

section Fed

variable {initial filter : IoFilter} {fn : Bytes → Bytes} {stream produced : Bytes} {ended : Bool}
variable {pending : Option (Option Bytes)}

theorem FilterFed.flushing (hinitial : initial.flushing = false)
    (h : FilterFed initial stream ended pending produced filter) : filter.flushing = ended := by
  induction h with
  | new => exact hinitial
  | @call stream produced data ended pending filter filter' input output _ _ hinput _ hprocess ih =>
    rw [(ioFilterProcessInOut_ok hprocess).1, ih]
    cases hended : ended with
    | false => rfl
    | true =>
      rw [hinput.flush hended]
      rfl

theorem FilterFed.output (h : FilterFed initial stream ended pending produced filter) :
    ioFilterOutput filter = ioFilterOutput initial := by
  induction h with
  | new => rfl
  | call _ _ _ _ hprocess ih => rw [(ioFilterProcessInOut_ok hprocess).2.1, ih]

theorem FilterFed.inputSame (hinitial : ioFilterInputSame initial = false)
    (h : FilterFed initial stream ended pending produced filter) :
    ioFilterInputSame filter = pending.isSome := by
  cases h with
  | new => exact hinitial
  | @call _ _ _ _ _ _ _ input _ _ _ _ _ _ =>
    unfold pendingInput
    split
    · rename_i hsame
      exact hsame
    · rename_i hsame
      exact Bool.not_eq_true _ ▸ hsame

theorem FilterFed.allowed (h : FilterFed initial stream ended pending produced filter)
    {input : Option Bytes} (hpending : pending = some input) : InputAllowed ended pending input := by
  cases h with
  | new => cases hpending
  | @call _ _ _ _ _ _ _ input' _ _ _ hinput _ _ =>
    unfold pendingInput at hpending
    split at hpending
    · rename_i hsame
      cases hpending
      unfold pendingInput
      rw [if_pos hsame]
      exact ⟨fun same heq => Option.some.inj heq, hinput.nonempty, fun hnone =>
        Option.isNone_iff_eq_none.mp hnone⟩
    · cases hpending

theorem FilterFed.ended_of_done (hinitial : initial.flushing = false)
    (h : FilterFed initial stream ended pending produced filter)
    (hdone : ioFilterDone filter = true) : ended = true := by
  rw [← h.flushing hinitial]
  unfold ioFilterDone at hdone
  split at hdone
  · assumption
  · cases hdone

end Fed

/-! ## The buffer filter -/

/-- A buffer filter that has copied a part of its input. -/
def ioBufferFilter (this : IoBuffer) (flushing : Bool) : IoFilter :=
  { ioBufferNew with driver := this, flushing := flushing }

/-- What a buffer filter has produced: all of the stream that it was fed, up
to the part of the pending chunk that was not copied yet. -/
inductive IoBufferFed : Bytes → Bool → Option (Option Bytes) → Bytes → IoFilter → Prop
  | ready (stream : Bytes) (ended : Bool) :
      IoBufferFed stream ended none stream (ioBufferFilter { inputPos := 0, inputSame := false } ended)
  | pending (produced chunk : Bytes) (inputPos : ℕ) (hpos : inputPos < chunk.length) :
      IoBufferFed (produced ++ chunk.drop inputPos) false (some (some chunk)) produced
        (ioBufferFilter { inputPos := inputPos, inputSame := true } false)

/-- A call with a chunk: what was copied, and the filter afterwards. -/
theorem ioBufferProcess_chunk (this : IoBuffer) {chunk : Bytes} (hpos : this.inputPos < chunk.length)
    {output : FilterBuffer} (hremains : 0 < output.remains) :
    ∃ (this' : IoBuffer) (data : Bytes), data.length ≤ output.remains ∧
      ioFilterProcessInOut (ioBufferFilter this false) (some chunk) output =
        .ok (ioBufferFilter this' false, output.cat data) ∧
      ((this' = { inputPos := 0, inputSame := false } ∧ data = chunk.drop this.inputPos) ∨
        ∃ inputPos, this.inputPos < inputPos ∧ inputPos < chunk.length ∧
          this' = { inputPos := inputPos, inputSame := true } ∧
          data ++ chunk.drop inputPos = chunk.drop this.inputPos) := by
  have hallowed : InputAllowed false none (some chunk) :=
    .data (ne_nil_of_length_pos (Nat.zero_lt_of_lt hpos))
  have hcheck : ioFilterCheck (ioBufferFilter this false) (some chunk) = none :=
    ioFilterCheck_eq_none rfl hallowed
  have hcopy : (output.cat (ioBufferProcess this (some chunk) output).2).data.isEmpty = false := by
    unfold FilterBuffer.cat ioBufferProcess
    rw [isEmpty_eq_false_iff, ← length_pos_iff]
    simp only [Option.getD_some, length_append, length_take, length_drop]
    omega
  have hprocess : ioFilterProcessInOut (ioBufferFilter this false) (some chunk) output =
      .ok (ioBufferFilter (ioBufferProcess this (some chunk) output).1 false,
        output.cat (ioBufferProcess this (some chunk) output).2) := by
    unfold ioFilterProcessInOut
    rw [hcheck]
    show (if ioFilterInputSame _ && (output.cat (ioBufferProcess this (some chunk) output).2).data.isEmpty
      then _ else _) = _
    rw [hcopy, Bool.and_false]
    rfl
  refine ⟨_, _, ?_, hprocess, ?_⟩
  · unfold ioBufferProcess
    rw [length_take]
    omega
  · unfold ioBufferProcess
    dsimp only [Option.getD_some]
    split
    · rename_i hend
      refine .inl ⟨rfl, take_of_length_le ?_⟩
      rw [length_drop]
      omega
    · rename_i hend
      refine .inr ⟨_, ?_, ?_, rfl, ?_⟩
      · omega
      · omega
      · rw [← drop_drop, take_append_drop]

theorem ioBufferProcess_flush (ended : Bool) (output : FilterBuffer) :
    ioFilterProcessInOut (ioBufferFilter { inputPos := 0, inputSame := false } ended) none output =
      .ok (ioBufferFilter { inputPos := 0, inputSame := false } true, output.cat []) := by
  cases ended <;> rfl

theorem FilterFed.ioBuffer {stream produced : Bytes}
        (h : FilterFed ioBufferNew stream ended pending produced filter) :
    IoBufferFed stream ended pending produced filter := by
  induction h with
  | new => exact .ready [] false
  | @call stream produced data ended pending filter filter' input output _ hdone hinput hremains
      hprocess ih =>
    have hchunk (this : IoBuffer) {chunk : Bytes} (hpos : this.inputPos < chunk.length)
        (hprocess : ioFilterProcessInOut (ioBufferFilter this false) (some chunk) output =
          .ok (filter', output.cat data)) :
        IoBufferFed (produced ++ chunk.drop this.inputPos) false (pendingInput filter' (some chunk))
          (produced ++ data) filter' := by
      obtain ⟨this', data', -, hprocess', hresult⟩ := ioBufferProcess_chunk this hpos hremains
      rw [hprocess] at hprocess'
      obtain ⟨hfilter, hdata⟩ := ok_inj hprocess'
      have hdata' : data = data' := append_cancel_left (congrArg FilterBuffer.data hdata)
      subst hdata' hfilter
      rcases hresult with ⟨rfl, rfl⟩ | ⟨inputPos, -, hlt, rfl, hdrop⟩
      · exact .ready _ false
      · rw [← hdrop, ← append_assoc]
        exact .pending _ chunk inputPos hlt
    cases ih with
    | ready stream ended =>
      cases input with
      | none =>
        rw [ioBufferProcess_flush] at hprocess
        obtain ⟨rfl, hdata⟩ := ok_inj hprocess
        have hdata' : [] = data := append_cancel_left (congrArg FilterBuffer.data hdata)
        subst hdata'
        show IoBufferFed (stream ++ []) true _ (stream ++ []) _
        rw [append_nil]
        exact .ready stream true
      | some chunk =>
        obtain rfl := hinput.not_ended
        exact hchunk { inputPos := 0, inputSame := false } hinput.length_pos hprocess
    | pending produced chunk inputPos hpos =>
      obtain rfl := hinput.same _ rfl
      exact hchunk { inputPos := inputPos, inputSame := true } hpos hprocess

/-- The calls with a chunk end: each one copies some data. -/
theorem ioBuffer_same (chunk : Bytes) (this : IoBuffer) (hpos : this.inputPos < chunk.length) :
    FilterSame (some chunk) (ioBufferFilter this false) := by
  induction hk : chunk.length - this.inputPos using Nat.strong_induction_on generalizing this with
  | h k ih =>
    refine .intro _ fun output filter' output' hremains hprocess hsame => ?_
    obtain ⟨this', data, -, hprocess', hresult⟩ := ioBufferProcess_chunk this hpos hremains
    rw [hprocess] at hprocess'
    rw [(ok_inj hprocess').1] at hsame ⊢
    rcases hresult with ⟨rfl, -⟩ | ⟨inputPos, hless, hlt, rfl, -⟩
    · cases hsame
    · exact ih (chunk.length - inputPos) (by omega) _ hlt rfl

/-- **The buffer filter meets its contract**: it copies the stream. -/
theorem ioBufferNew_contract : InOutContract ioBufferNew id where
  output := rfl
  flushing := rfl
  inputSame := rfl
  process stream ended pending produced filter input output hfed hdone hinput hremains := by
    cases hfed.ioBuffer with
    | ready stream ended =>
      cases input with
      | none => exact ⟨_, [], Nat.zero_le _, ioBufferProcess_flush ended output⟩
      | some chunk =>
        obtain rfl := hinput.not_ended
        obtain ⟨this', data, hlength, hprocess, -⟩ :=
          ioBufferProcess_chunk { inputPos := 0, inputSame := false } hinput.length_pos hremains
        exact ⟨_, data, hlength, hprocess⟩
    | pending produced chunk inputPos hpos =>
      obtain rfl := hinput.same _ rfl
      obtain ⟨this', data, hlength, hprocess, -⟩ :=
        ioBufferProcess_chunk { inputPos := inputPos, inputSame := true } hpos hremains
      exact ⟨_, data, hlength, hprocess⟩
  produced stream ended pending produced filter hfed hdone := by
    cases hfed.ioBuffer with
    | ready => exact ⟨rfl, rfl⟩
    | pending => cases hdone
  same stream ended pending produced filter input hfed hinput := by
    cases hfed.ioBuffer with
    | ready stream ended =>
      cases input with
      | none =>
        refine .intro _ fun output filter' output' _ hprocess hsame => ?_
        rw [ioBufferProcess_flush] at hprocess
        rw [← (ok_inj hprocess).1] at hsame
        cases hsame
      | some chunk =>
        obtain rfl := hinput.not_ended
        exact ioBuffer_same chunk _ hinput.length_pos
    | pending produced chunk inputPos hpos =>
      obtain rfl := hinput.same _ rfl
      exact ioBuffer_same chunk _ hpos
  flush stream ended pending produced filter hfed hinput := by
    cases hfed.ioBuffer with
    | ready stream ended =>
      refine .intro _ fun output filter' output' _ hprocess hdone => ?_
      rw [ioBufferProcess_flush] at hprocess
      rw [← (ok_inj hprocess).1] at hdone
      cases hdone
    | pending => cases hinput.same _ rfl

end PgxBackup
