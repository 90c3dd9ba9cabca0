import PgxBackup.FilterContract

/-!
# Chains of filters

What a chain has been fed and what it has produced is said filter by filter.
Between two filters there is a buffer. The filters behind it were fed all that
the filter before it has produced, except for what is still in the buffer, or
they need the data in the buffer again. Each time filters are processed, all
filters of the chain are fed as their contracts allow.
-/

namespace PgxBackup

open List

section NullIf

variable {filter : IoFilter} {buffer : FilterBuffer}

/-- The buffer of a filter is `NULL` when the filter is done and all of it was
passed on. -/
theorem nullIf_nil (hdone : ioFilterDone filter = true) (hdata : buffer.data = []) :
    (⟨filter, some buffer⟩ : IoFilterData).nullIf =
      ⟨filter, none⟩ := by
  unfold IoFilterData.nullIf
  dsimp only
  rw [hdone, hdata]
  rfl

theorem nullIf_data (hdata : buffer.data ≠ []) :
    (⟨filter, some buffer⟩ : IoFilterData).nullIf =
      ⟨filter, some buffer⟩ := by
  unfold IoFilterData.nullIf
  dsimp only
  rw [isEmpty_eq_false_iff.mpr hdata, Bool.and_false]
  rfl

end NullIf

/-- A filter that only observes its input after it has seen these chunks. -/
def IoFilter.observed (initial : IoFilter) (chunks : List Bytes) (ended : Bool) : IoFilter :=
  { initial with driver := chunks.foldl initial.interface.observe initial.driver
                 flushing := ended }

/-- **The buffer between a filter and the filters behind it**: what is in it
was not fed yet, or is pending. It is `NULL` when the filter is done and all of
its output was fed. -/
inductive FilterLink (filter : IoFilter) (produced : Bytes) :
    Option FilterBuffer → Bytes → Bool → Option (Option Bytes) → Prop
  | unseen {stream : Bytes} (buffer : FilterBuffer) (hsize : 0 < buffer.size)
      (hspace : ioFilterDone filter = true ∨ 0 < buffer.remains)
      (hproduced : produced = stream ++ buffer.data) :
      FilterLink filter produced (some buffer) stream false none
  | seen (buffer : FilterBuffer) (hsize : 0 < buffer.size) (hdata : buffer.data ≠ []) :
      FilterLink filter produced (some buffer) produced false (some (some buffer.data))
  | closed (ended : Bool) (pending : Option (Option Bytes)) (hdone : ioFilterDone filter = true)
      (hpending : ∀ input, pending = some input → input = none) :
      FilterLink filter produced none produced ended pending

/-- **A chain that was fed**: the filters it was opened with, its filters now,
the stream so far and whether it has ended, the input that is pending for its
first filter that produces output, and what was appended to the output buffers
of the last one. -/
inductive ChainFed :
    List IoFilter → List IoFilterData → Bytes → Bool → Option (Option Bytes) → Bytes → Prop
  | last {initial filter : IoFilter} {stream produced : Bytes} {ended : Bool}
      {pending : Option (Option Bytes)} (houtput : ioFilterOutput initial = true)
      (hfed : FilterFed initial stream ended pending produced filter)
      (output : Option FilterBuffer) :
      ChainFed [initial] [⟨filter, output⟩] stream ended pending produced
  | observer {initial : IoFilter} {filters : List IoFilter} {list : List IoFilterData}
      {chunks : List Bytes} {produced : Bytes} {ended : Bool} {pending : Option (Option Bytes)}
      (houtput : ioFilterOutput initial = false)
      (hrest : ChainFed filters list chunks.flatten ended pending produced) :
      ChainFed (initial :: filters)
        ({ filter := initial.observed chunks ended, output := none } :: list) chunks.flatten ended
        pending produced
  | inOut {initial filter : IoFilter} {filters : List IoFilter} {list : List IoFilterData}
      {output : Option FilterBuffer} {stream middle produced streamRest : Bytes}
      {ended endedRest : Bool} {pending pendingRest : Option (Option Bytes)}
      (houtput : ioFilterOutput initial = true)
      (hfed : FilterFed initial stream ended pending middle filter)
      (hlink : FilterLink filter middle output streamRest endedRest pendingRest)
      (hrest : ChainFed filters list streamRest endedRest pendingRest produced) :
      ChainFed (initial :: filters) (⟨filter, output⟩ :: list) stream ended
        pending produced

/-- The filters that only observe their input do not flush when they are
opened, and the others meet their contracts. -/
def ChainContract (filters : List IoFilter) (fns : List (Bytes → Bytes)) : Prop :=
  List.Forall₂ FilterContract filters fns

section Chain

variable {filters : List IoFilter} {fns : List (Bytes → Bytes)} {list : List IoFilterData}
variable {stream produced : Bytes} {ended : Bool} {pending : Option (Option Bytes)}

theorem FilterContract.inOut {initial : IoFilter} {fn : Bytes → Bytes}
    (h : FilterContract initial fn) (houtput : ioFilterOutput initial = true) :
    InOutContract initial fn := by
  unfold FilterContract at h
  rwa [if_pos houtput] at h

theorem FilterContract.observer {initial : IoFilter} {fn : Bytes → Bytes}
    (h : FilterContract initial fn) (houtput : ioFilterOutput initial = false) :
    initial.flushing = false ∧ fn = id := by
  unfold FilterContract at h
  rwa [if_neg (by rw [houtput]; exact Bool.false_ne_true)] at h

variable {initial filter : IoFilter} {fn : Bytes → Bytes} {output : FilterBuffer} {data : IoFilterData}

section

variable (houtput : ioFilterOutput initial = false) (chunks : List Bytes) (ended : Bool)
include houtput

theorem observed_inputSame : ioFilterInputSame (initial.observed chunks ended) = false := by
  obtain ⟨driverType, interface, driver, flushing⟩ := initial
  cases interface with
  | filterIn process => rfl
  | filterInOut process done inputSame => cases houtput

theorem observed_done : ioFilterDone (initial.observed chunks ended) = ended := by
  obtain ⟨driverType, interface, driver, flushing⟩ := initial
  cases interface with
  | filterIn process => cases ended <;> rfl
  | filterInOut process done inputSame => cases houtput

end

theorem FilterContract.observed_nil
    (h : FilterContract initial fn) (houtput : ioFilterOutput initial = false) :
    initial.observed [] false = initial := by
  rw [← (h.observer houtput).1]
  rfl

theorem ChainContract.inputSame (hcontract : ChainContract filters fns)
    (hfilter : filter ∈ filters) : ioFilterInputSame filter = false := by
  induction hcontract with
  | nil => cases hfilter
  | @cons initial fn _ _ hinitial _ ih =>
    rcases mem_cons.mp hfilter with rfl | hrest
    · cases houtput : ioFilterOutput filter with
      | true => exact (hinitial.inOut houtput).inputSame
      | false =>
        rw [← hinitial.observed_nil houtput]
        exact observed_inputSame houtput [] false
    · exact ih hrest

theorem ChainFed.ne_nil (h : ChainFed filters list stream ended pending produced) : list ≠ [] := by
  cases h <;> exact cons_ne_nil _ _

variable {input : Option Bytes}

theorem ioFilterProcessIn_observed (chunks : List Bytes)
    (hinput : InputAllowed ended pending input)
    (houtput : ioFilterOutput initial = false) (hpending : pending = none) :
    ∃ chunks', chunks'.flatten = feed chunks.flatten pending input ∧
      (if ioFilterDone (initial.observed chunks ended) then .ok (initial.observed chunks ended)
        else ioFilterProcessIn (initial.observed chunks ended) input) =
        .ok (initial.observed chunks' input.isNone) := by
  subst hpending
  rw [observed_done houtput]
  cases ended with
  | true =>
    rw [hinput.flush rfl]
    exact ⟨chunks, (append_nil _).symm, rfl⟩
  | false =>
    have hcheck : ioFilterCheck (initial.observed chunks false) input = none :=
      ioFilterCheck_eq_none rfl hinput
    rw [if_neg Bool.false_ne_true]
    unfold ioFilterProcessIn
    rw [hcheck]
    cases input with
    | none => exact ⟨chunks, (append_nil _).symm, rfl⟩
    | some chunk =>
      refine ⟨chunks ++ [chunk], ?_, ?_⟩
      · rw [flatten_append, flatten_singleton]
        rfl
      · unfold IoFilter.observed
        rw [foldl_append]
        rfl

/-- The first filter that produces output has pending input exactly if it needs
the same input. -/
theorem ChainFed.pending_none (h : ChainFed filters list stream ended pending produced)
    (hcontract : ChainContract filters fns)
    (hsame : ∀ data ∈ list, ioFilterInputSame data.filter = false) : pending = none := by
  have hfirst {initial filter : IoFilter} {fn : Bytes → Bytes} {stream produced : Bytes}
      {ended : Bool} {pending : Option (Option Bytes)} (hcontract : FilterContract initial fn)
      (houtput : ioFilterOutput initial = true)
      (hfed : FilterFed initial stream ended pending produced filter)
      (hsame : ioFilterInputSame filter = false) : pending = none := by
    rw [hfed.inputSame (hcontract.inOut houtput).inputSame] at hsame
    exact Option.not_isSome_iff_eq_none.mp (by rw [hsame]; exact Bool.false_ne_true)
  induction h generalizing fns with
  | last houtput hfed | inOut houtput hfed =>
    cases hcontract with
    | cons hcontract _ => exact hfirst hcontract houtput hfed (hsame _ mem_cons_self)
  | observer _ _ ih =>
    cases hcontract with
    | cons _ hrest => exact ih hrest (fun data hdata => hsame data (mem_cons_of_mem _ hdata))

/-! ## One filter -/

section Equations

variable {input : Option Bytes} {rest : List IoFilterData} {pass : FilterPass}

variable {filter : IoFilter} {output : FilterBuffer}

theorem filterPass_observer {data : IoFilterData}
    (houtput : ioFilterOutput data.filter = false)
    (hfilter : (if ioFilterDone data.filter then .ok data.filter
      else ioFilterProcessIn data.filter input) = .ok filter)
    (hpass : filterPass input rest = .ok pass) :
    filterPass input (data :: rest) =
      .ok { filterList := { data with filter := filter } :: pass.filterList
            inputSame := pass.inputSame, inputUsed := pass.inputUsed } := by
  unfold filterPass
  rw [if_neg (by rw [houtput]; exact Bool.false_ne_true), hpass]
  split at hfilter
  · rename_i hdone
    rw [if_pos hdone, Except.ok.inj hfilter]
    rfl
  · rename_i hdone
    rw [if_neg hdone, hfilter]
    rfl

section

variable (houtput : ioFilterOutput filter = true)
include houtput

theorem filterPass_closed (hpass : filterPass none rest = .ok pass) :
    filterPass input (⟨filter, none⟩ :: rest) =
      .ok { filterList := ⟨filter, none⟩ :: pass.filterList
            inputSame := pass.inputSame, inputUsed := false } := by
  conv_lhs => unfold filterPass
  rw [if_pos houtput, hpass]
  rfl

theorem filterPass_done (hdone : ioFilterDone filter = true)
    (hpass : filterPass (⟨filter, some output⟩ : IoFilterData).nullIf.data
      rest = .ok pass) :
    filterPass input (⟨filter, some output⟩ :: rest) =
      .ok { filterList :=
              (⟨filter, some output⟩ : IoFilterData).nullIf.clearIf
                pass.inputUsed :: pass.filterList
            inputSame := pass.inputSame, inputUsed := false } := by
  conv_lhs => unfold filterPass
  dsimp only
  rw [if_pos houtput, if_pos hdone, hpass]
  rfl

section

variable {filter' : IoFilter} {output' : FilterBuffer} (hdone : ioFilterDone filter = false)
  (hprocess : ioFilterProcessInOut filter input output = .ok (filter', output'))
include hdone hprocess

theorem filterPass_break (hbreak : (!output'.isFull && !ioFilterDone filter') = true) :
    filterPass input (⟨filter, some output⟩ :: rest) =
      .ok { filterList := { filter := filter', output := some output' } :: rest
            inputSame := ioFilterInputSame filter', inputUsed := !ioFilterInputSame filter' } := by
  conv_lhs => unfold filterPass
  dsimp only
  rw [if_pos houtput, if_neg (by rw [hdone]; exact Bool.false_ne_true), hprocess]
  exact if_pos hbreak

theorem filterPass_next (hbreak : ¬(!output'.isFull && !ioFilterDone filter') = true)
    (hpass : filterPass ({ filter := filter', output := some output' } : IoFilterData).nullIf.data
      rest = .ok pass) :
    filterPass input (⟨filter, some output⟩ :: rest) =
      .ok { filterList :=
              ({ filter := filter', output := some output' } : IoFilterData).nullIf.clearIf
                pass.inputUsed :: pass.filterList
            inputSame := ioFilterInputSame filter' || pass.inputSame
            inputUsed := !ioFilterInputSame filter' } := by
  conv_lhs => unfold filterPass
  dsimp only
  rw [if_pos houtput, if_neg (by rw [hdone]; exact Bool.false_ne_true), hprocess]
  refine (if_neg hbreak).trans ?_
  rw [hpass]
  rfl

end

end

/-- Only the buffer of a filter is set to `NULL` or cleared. -/
theorem nullIf_clearIf (filter : IoFilter) (output : Option FilterBuffer) (used : Bool) :
    (⟨filter, output⟩ : IoFilterData).nullIf.clearIf used =
      { filter := filter
        output := ((⟨filter, output⟩ : IoFilterData).nullIf.clearIf
          used).output } := by
  have hfilter : ((⟨filter, output⟩ : IoFilterData).nullIf.clearIf
      used).filter = filter := by
    have hnull : (⟨filter, output⟩ : IoFilterData).nullIf.filter = filter := by
      unfold IoFilterData.nullIf
      cases output with
      | none => rfl
      | some output => dsimp only; split <;> rfl
    unfold IoFilterData.clearIf
    split
    · exact hnull
    · exact hnull
  exact congrArg (fun filter' => ({ filter := filter'
                                    output := ((⟨filter, output⟩ :
                                      IoFilterData).nullIf.clearIf used).output } : IoFilterData))
    hfilter

end Equations

/-! ## A pass -/

variable {rest : List IoFilterData}

section

variable (output : FilterBuffer) (data : IoFilterData) (hrest : rest ≠ [])
include hrest

theorem setOutput_cons : setOutput output (data :: rest) = data :: setOutput output rest := by
  cases rest with
  | nil => exact absurd rfl hrest
  | cons next rest => rfl

theorem getOutput_cons : getOutput output (data :: rest) = getOutput output rest := by
  unfold getOutput
  rw [getLast?_cons_of_ne_nil hrest]

end

theorem delivered_cons (hrest : ChainFed filters list stream ended pending produced)
    {output buffer : FilterBuffer} (hbuffer : getOutput output list = buffer)
    (data : IoFilterData) : getOutput output (data :: list) = buffer := by
  rw [getOutput_cons _ _ hrest.ne_nil]
  exact hbuffer

variable {list : List IoFilterData}

theorem setOutput_ne_nil (output : FilterBuffer) (hlist : list ≠ []) :
    setOutput output list ≠ [] := by
  match list with
  | [] => exact hlist
  | [data] => exact cons_ne_nil _ _
  | data :: next :: rest => exact cons_ne_nil _ _

theorem getOutput_setOutput (output : FilterBuffer) (hlist : list ≠ []) :
    getOutput output (setOutput output list) = output := by
  induction list with
  | nil => exact absurd rfl hlist
  | cons data rest ih =>
    by_cases hrest : rest = []
    · rw [hrest]
      rfl
    · rw [setOutput_cons _ _ hrest, getOutput_cons _ _ (setOutput_ne_nil _ hrest)]
      exact ih hrest

theorem ChainFed.withOutput (h : ChainFed filters list stream ended pending produced)
    (output : FilterBuffer) :
    ChainFed filters (setOutput output list) stream ended pending produced := by
  induction h with
  | last houtput hfed last => exact .last houtput hfed (some output)
  | observer houtput hrest ih =>
    rw [setOutput_cons _ _ hrest.ne_nil]
    exact .observer houtput ih
  | inOut houtput hfed hlink hrest ih =>
    rw [setOutput_cons _ _ hrest.ne_nil]
    exact .inOut houtput hfed hlink ih

/-- The last filter has an output buffer unless it is done and this buffer is
empty. -/
def LastNull (output : FilterBuffer) (list : List IoFilterData) : Prop :=
  ∀ data ∈ list.getLast?, data.output = none →
    ioFilterDone data.filter = true ∧ output.data = []

theorem lastNull_cons (output : FilterBuffer) (data : IoFilterData) (hrest : rest ≠ []) :
    LastNull output (data :: rest) ↔ LastNull output rest := by
  unfold LastNull
  rw [getLast?_cons_of_ne_nil hrest]

theorem lastNull_setOutput (before output : FilterBuffer)
    (hlist : list ≠ []) : LastNull before (setOutput output list) := by
  induction list with
  | nil => exact absurd rfl hlist
  | cons data rest ih =>
    by_cases hrest : rest = []
    · rw [hrest]
      intro last hlast hnone
      rw [← Option.some.inj hlast] at hnone
      cases hnone
    · rw [setOutput_cons _ _ hrest, lastNull_cons _ _ (setOutput_ne_nil _ hrest)]
      exact ih hrest

theorem lastNull_nullIf (filter : IoFilter) (output : FilterBuffer) (data : Bytes) (used : Bool) :
    LastNull output [({ filter := filter, output := some (output.cat data) } :
      IoFilterData).nullIf.clearIf used] := by
  have hnull (hnone : ({ filter := filter, output := some (output.cat data) } :
      IoFilterData).nullIf.output = none) :
      ioFilterDone ({ filter := filter, output := some (output.cat data) } :
        IoFilterData).nullIf.filter = true ∧ output.data = [] := by
    unfold IoFilterData.nullIf at hnone ⊢
    dsimp only at hnone ⊢
    split at hnone
    · rename_i hdone
      rw [if_pos hdone]
      rw [Bool.and_eq_true, List.isEmpty_iff] at hdone
      exact ⟨hdone.1, (append_eq_nil_iff.mp hdone.2).1⟩
    · cases hnone
  intro last hlast hnone
  rw [← Option.some.inj hlast] at hnone ⊢
  cases used with
  | false => exact hnull hnone
  | true => exact hnull (Option.map_eq_none_iff.mp hnone)

/-- **Filters were processed with this input**: what they are fed then, and
what is appended to the output buffer. The input was used up unless it is
pending, or there was none for a filter that is done. -/
structure Passed (filters : List IoFilter) (stream : Bytes) (ended : Bool) (produced : Bytes)
    (output : FilterBuffer) (before : Option (Option Bytes)) (input : Option Bytes)
    (pass : FilterPass) (data : Bytes) (pending : Option (Option Bytes)) : Prop where
  delivered : getOutput output pass.filterList = output.cat data
  last : LastNull output pass.filterList
  fed : ChainFed filters pass.filterList stream ended pending (produced ++ data)
  used : pass.inputUsed = true → pending = none
  unused : pass.inputUsed = false →
    pending = some input ∨ pending = none ∧ input = none ∧ before = none

theorem Passed.same {pass : FilterPass} {data : Bytes} {before : Option (Option Bytes)}
    {same : Option Bytes}
    (h : Passed filters stream ended produced output before input pass data pending)
    (hpending : pending = some same) : input = same := by
  cases hused : pass.inputUsed with
  | true => cases (h.used hused).symm.trans hpending
  | false =>
    rcases h.unused hused with heq | ⟨heq, -⟩
    · exact Option.some.inj (heq.symm.trans hpending)
    · cases heq.symm.trans hpending

theorem cat_nil (output : FilterBuffer) : output.cat [] = output := by
  unfold FilterBuffer.cat
  rw [append_nil]

theorem getOutput_nullIf (output buffer : FilterBuffer) (filter : IoFilter)
    (hempty : buffer.data = [] → buffer = output) :
    getOutput output [(⟨filter, some buffer⟩ : IoFilterData).nullIf] =
      buffer := by
  unfold getOutput IoFilterData.nullIf
  dsimp only [getLast?_singleton]
  split
  · rename_i hnull
    rw [Bool.and_eq_true, List.isEmpty_iff] at hnull
    exact (hempty hnull.2).symm
  · rfl

/-- **The buffer of a filter is passed on** when it is full or the filter is
done. -/
theorem feedRest {middle streamRest : Bytes} {buffer : FilterBuffer}
    (hsize : 0 < buffer.size)
    (hmiddle : middle = streamRest ++ buffer.data)
    (hready : ioFilterDone filter = true ∨ buffer.isFull = true)
    (ih : ∀ input, InputAllowed false none input →
      ∃ pass data pending, filterPass input (setOutput output rest) = .ok pass ∧
        Passed filters (feed streamRest none input) input.isNone produced output none input pass data
          pending) :
    ∃ pass data streamRest' endedRest' pendingRest',
      filterPass ((⟨filter, some buffer⟩ : IoFilterData).nullIf).data
        (setOutput output rest) = .ok pass ∧
      (getOutput output pass.filterList = output.cat data ∧ LastNull output pass.filterList) ∧
      ChainFed filters pass.filterList streamRest' endedRest' pendingRest' (produced ++ data) ∧
      FilterLink filter middle
        ((⟨filter, some buffer⟩ : IoFilterData).nullIf.clearIf
          pass.inputUsed).output streamRest' endedRest' pendingRest' := by
  by_cases hdata : buffer.data = []
  · -- the filter is done, so the end of its output is passed on
    have hdone : ioFilterDone filter = true := by
      refine hready.resolve_right ?_
      unfold FilterBuffer.isFull FilterBuffer.remains
      rw [hdata, length_nil, Nat.sub_zero, decide_eq_true_iff]
      exact hsize.ne'
    obtain ⟨pass, data, pending, hpass, hpassed⟩ := ih none (.null false)
    have hstream : feed streamRest none none = middle := by
      rw [hmiddle, hdata]
      rfl
    rw [nullIf_nil hdone hdata]
    refine ⟨pass, data, _, _, pending, hpass, ⟨hpassed.delivered, hpassed.last⟩, hpassed.fed, ?_⟩
    rw [hstream]
    have hclosed : FilterLink filter middle none middle true pending :=
      .closed _ pending hdone fun same heq => (hpassed.same heq).symm
    unfold IoFilterData.clearIf
    split <;> exact hclosed
  · obtain ⟨pass, data, pending, hpass, hpassed⟩ := ih (some buffer.data) (.data hdata)
    have hstream : feed streamRest none (some buffer.data) = middle := hmiddle.symm
    rw [nullIf_data hdata]
    refine ⟨pass, data, _, _, pending, hpass, ⟨hpassed.delivered, hpassed.last⟩, hpassed.fed, ?_⟩
    rw [hstream]
    cases hused : pass.inputUsed with
    | true =>
      rw [hpassed.used hused]
      refine .unseen buffer.usedZero hsize (.inr ?_) (append_nil _).symm
      exact hsize
    | false =>
      rcases hpassed.unused hused with rfl | ⟨-, hnone⟩
      · exact .seen buffer hsize hdata
      · cases hnone.1

section

variable (hcontract : InOutContract initial fn)
  (hfed : FilterFed initial stream ended pending produced filter)
include hcontract hfed

theorem FilterFed.of_done (hdone : ioFilterDone filter = true) : ended = true ∧ pending = none := by
  refine ⟨hfed.ended_of_done hcontract.flushing hdone, ?_⟩
  have hsame := (hcontract.produced _ _ _ _ _ hfed hdone).2
  rw [hfed.inputSame hcontract.inputSame] at hsame
  exact Option.not_isSome_iff_eq_none.mp (by rw [hsame]; exact Bool.false_ne_true)

theorem FilterFed.process (hdone : ioFilterDone filter = false) {input : Option Bytes}
    (hinput : InputAllowed ended pending input) (hremains : 0 < output.remains) :
    ∃ filter' data, ioFilterProcessInOut filter input output = .ok (filter', output.cat data) ∧
      FilterFed initial (feed stream pending input) input.isNone (pendingInput filter' input)
        (produced ++ data) filter' := by
  obtain ⟨filter', data, -, hprocess⟩ :=
    hcontract.process _ _ _ _ _ _ _ hfed hdone hinput hremains
  exact ⟨filter', data, hprocess, .call hfed hdone hinput hremains hprocess⟩

end

theorem pendingInput_used (filter : IoFilter) (input : Option Bytes)
    (before : Option (Option Bytes)) :
    ((!ioFilterInputSame filter) = true → pendingInput filter input = none) ∧
      ((!ioFilterInputSame filter) = false → pendingInput filter input = some input ∨
        pendingInput filter input = none ∧ input = none ∧ before = none) := by
  unfold pendingInput
  cases ioFilterInputSame filter with
  | true => exact ⟨nofun, fun _ => .inl rfl⟩
  | false => exact ⟨fun _ => rfl, nofun⟩

theorem feed_none (stream : Bytes) (pending : Option (Option Bytes)) :
    feed stream pending none = stream := by
  cases pending with
  | none => exact append_nil stream
  | some _ => rfl

/-- **Processing filters feeds the chain.** The input is new, or it is pending
for the first filter. -/
theorem ChainFed.pass (h : ChainFed filters list stream ended pending produced)
    (hcontract : ChainContract filters fns)
    (hsame : ∀ data ∈ list.tail, ioFilterInputSame data.filter = false)
    (hhead : pending = none ∨ ∀ data ∈ list.head?, ioFilterOutput data.filter = true)
    (hinput : InputAllowed ended pending input)
    (hremains : 0 < output.remains) :
    ∃ pass data pending', filterPass input (setOutput output list) = .ok pass ∧
      Passed filters (feed stream pending input) input.isNone produced output pending input pass data
        pending' := by
  induction h generalizing fns input with
  | @last initial filter stream produced ended pending houtput hfed last =>
    cases hcontract with
    | cons hfilter _ =>
      have hinOut := hfilter.inOut houtput
      have hisOutput : ioFilterOutput filter = true := by rw [hfed.output, houtput]
      have hempty : filterPass (⟨filter, some output⟩ :
          IoFilterData).nullIf.data [] =
          .ok { filterList := [], inputSame := false, inputUsed := false } := rfl
      cases hdone : ioFilterDone filter with
      | true =>
        obtain ⟨rfl, rfl⟩ := hfed.of_done hinOut hdone
        obtain rfl := hinput.flush rfl
        have hlast := lastNull_nullIf filter output [] false
        rw [cat_nil] at hlast
        refine ⟨_, [], none, filterPass_done hisOutput hdone hempty, ?_, hlast, ?_, nofun,
          fun _ => .inr ⟨rfl, rfl, rfl⟩⟩
        · rw [cat_nil]
          exact getOutput_nullIf output output filter (fun _ => rfl)
        · rw [feed_none, append_nil, nullIf_clearIf]
          exact .last houtput hfed _
      | false =>
        obtain ⟨filter', data, hprocess, hfed'⟩ := hfed.process hinOut hdone hinput hremains
        have hused := pendingInput_used filter' input pending
        by_cases hbreak : (!(output.cat data).isFull && !ioFilterDone filter') = true
        · refine ⟨_, data, _, filterPass_break hisOutput hdone hprocess hbreak, rfl, ?_, ?_, hused.1,
            hused.2⟩
          · exact lastNull_setOutput _ _ (cons_ne_nil { filter := filter', output := none } [])
          · exact .last houtput hfed' _
        · refine ⟨_, data, _, filterPass_next hisOutput hdone hprocess hbreak rfl, ?_,
            lastNull_nullIf filter' _ _ false, ?_, hused.1, hused.2⟩
          · refine getOutput_nullIf output (output.cat data) filter' fun hnil => ?_
            unfold FilterBuffer.cat at hnil ⊢
            rw [(append_eq_nil_iff.mp hnil).2, append_nil]
          · rw [nullIf_clearIf]
            exact .last houtput hfed' _
  | @observer initial filters list chunks produced ended pending houtput hrest ih =>
    cases hcontract with
    | cons hfilter hcontract =>
      have hpending : pending = none := by
        refine hhead.resolve_right fun hall => ?_
        have hout := hall _ rfl
        cases hout.symm.trans houtput
      obtain ⟨chunks', hflatten, hobserved⟩ :=
        ioFilterProcessIn_observed chunks hinput houtput hpending
      have htail : ∀ data ∈ list.tail, ioFilterInputSame data.filter = false :=
        fun data hdata => hsame data (mem_of_mem_tail hdata)
      obtain ⟨pass, data, pending', hpass, hpassed⟩ := ih hcontract htail (.inl hpending) hinput
      have hisOutput : ioFilterOutput (initial.observed chunks ended) = false := houtput
      rw [setOutput_cons _ _ hrest.ne_nil]
      refine ⟨_, data, pending', filterPass_observer hisOutput hobserved hpass, ?_,
        (lastNull_cons _ _ hpassed.fed.ne_nil).mpr hpassed.last, ?_, hpassed.used, hpassed.unused⟩
      · exact delivered_cons hpassed.fed hpassed.delivered _
      · have hfed := hpassed.fed
        rw [← hflatten] at hfed ⊢
        exact .observer houtput hfed
  | @inOut initial filter filters list last stream middle produced streamRest ended endedRest
      pending pendingRest houtput hfed hlink hrest ih =>
    cases hcontract with
    | cons hfilter hcontract =>
      have hinOut := hfilter.inOut houtput
      have hisOutput : ioFilterOutput filter = true := by rw [hfed.output, houtput]
      have htail : ∀ data ∈ list.tail, ioFilterInputSame data.filter = false :=
        fun data hdata => hsame data (mem_of_mem_tail hdata)
      have hnone : pendingRest = none := hrest.pending_none hcontract hsame
      subst hnone
      rw [setOutput_cons _ _ hrest.ne_nil]
      cases hlink with
      | closed _ _ hdone _ =>
        obtain ⟨rfl, rfl⟩ := hfed.of_done hinOut hdone
        obtain rfl := hinput.flush rfl
        obtain ⟨pass, data, pending', hpass, hpassed⟩ :=
          ih hcontract htail (.inl rfl) (.null endedRest)
        refine ⟨_, data, none, filterPass_closed hisOutput hpass, ?_,
          (lastNull_cons _ _ hpassed.fed.ne_nil).mpr hpassed.last, ?_, nofun,
          fun _ => .inr ⟨rfl, rfl, rfl⟩⟩
        · exact delivered_cons hpassed.fed hpassed.delivered _
        · have hrest' := hpassed.fed
          rw [feed_none] at hrest' ⊢
          exact .inOut houtput hfed
            (.closed _ pending' hdone fun same heq => (hpassed.same heq).symm) hrest'
      | unseen buffer hsize hspace hproduced =>
        have ihRest (input : Option Bytes) (hallowed : InputAllowed false none input) :=
          ih hcontract htail (.inl rfl) hallowed
        cases hdone : ioFilterDone filter with
        | true =>
          obtain ⟨rfl, rfl⟩ := hfed.of_done hinOut hdone
          obtain rfl := hinput.flush rfl
          obtain ⟨pass, data, streamRest', endedRest', pendingRest', hpass, hout, hfedRest, hlink'⟩ :=
            feedRest hsize hproduced (.inl hdone) ihRest
          refine ⟨_, data, none, filterPass_done hisOutput hdone hpass, ?_,
            (lastNull_cons _ _ hfedRest.ne_nil).mpr hout.2, ?_, nofun,
            fun _ => .inr ⟨rfl, rfl, rfl⟩⟩
          · exact delivered_cons hfedRest hout.1 _
          · rw [feed_none, nullIf_clearIf]
            exact .inOut houtput hfed hlink' hfedRest
        | false =>
          have hspace' : 0 < buffer.remains :=
            hspace.resolve_left (by rw [hdone]; exact Bool.false_ne_true)
          obtain ⟨filter', bytes, hprocess, hfed'⟩ := hfed.process hinOut hdone hinput hspace'
          have hused := pendingInput_used filter' input pending
          have hproduced' : middle ++ bytes = streamRest ++ (buffer.cat bytes).data := by
            rw [hproduced, append_assoc]
            rfl
          by_cases hbreak : (!(buffer.cat bytes).isFull && !ioFilterDone filter') = true
          · refine ⟨_, [], _, filterPass_break hisOutput hdone hprocess hbreak, ?_, ?_, ?_, hused.1,
              hused.2⟩
            · rw [cat_nil]
              exact delivered_cons (hrest.withOutput output)
                (getOutput_setOutput output hrest.ne_nil) _
            · exact (lastNull_cons _ _ (setOutput_ne_nil _ hrest.ne_nil)).mpr
                (lastNull_setOutput output output hrest.ne_nil)
            · have hspace'' : ioFilterDone filter' = true ∨ 0 < (buffer.cat bytes).remains := by
                rw [Bool.and_eq_true, FilterBuffer.isFull] at hbreak
                exact .inr (Nat.pos_of_ne_zero (by simpa using hbreak.1))
              rw [append_nil]
              exact .inOut houtput hfed' (.unseen (buffer.cat bytes) hsize hspace'' hproduced')
                (hrest.withOutput output)
          · have hready : ioFilterDone filter' = true ∨ (buffer.cat bytes).isFull = true := by
              rw [Bool.and_eq_true, not_and_or] at hbreak
              rcases hbreak with hfull | hdone'
              · exact .inr (by simpa using hfull)
              · exact .inl (by simpa using hdone')
            obtain ⟨pass, data, streamRest', endedRest', pendingRest', hpass, hout, hfedRest,
              hlink'⟩ := feedRest (show 0 < (buffer.cat bytes).size from hsize) hproduced' hready
                ihRest
            refine ⟨_, data, _, filterPass_next hisOutput hdone hprocess hbreak hpass, ?_, ?_, ?_,
              hused.1, hused.2⟩
            · exact delivered_cons hfedRest hout.1 _
            · exact (lastNull_cons _ _ hfedRest.ne_nil).mpr hout.2
            · rw [nullIf_clearIf]
              exact .inOut houtput hfed' hlink' hfedRest

/-! ## Going on with the same input -/

theorem filterResume_inOut {next : FilterPass}
    (houtput : ioFilterOutput data.filter = true)
    (hnext : filterResume data.data rest = some (.ok next)) (input : Option Bytes) :
    filterResume input (data :: rest) =
      some (.ok { filterList := data.clearIf next.inputUsed :: next.filterList
                  inputSame := next.inputSame, inputUsed := false }) := by
  unfold filterResume
  dsimp only
  rw [if_pos houtput, hnext]
  refine congrArg some ?_
  show (if _ then _ else _) = _
  exact if_pos houtput

theorem filterResume_observer {next : FilterPass}
    (houtput : ioFilterOutput data.filter = false)
    (hnext : filterResume input rest = some (.ok next)) :
    filterResume input (data :: rest) =
      some (.ok { filterList := data :: next.filterList, inputSame := next.inputSame
                  inputUsed := next.inputUsed }) := by
  have houtput' : ¬ioFilterOutput data.filter = true := by
    rw [houtput]
    exact Bool.false_ne_true
  unfold filterResume
  dsimp only
  rw [if_neg houtput', hnext]
  refine congrArg some ?_
  show (if _ then _ else _) = _
  exact if_neg houtput'

theorem filterResume_self (hrest : ∀ restInput, filterResume restInput rest = none) :
    filterResume input (data :: rest) =
      if ioFilterInputSame data.filter then some (filterPass input (data :: rest)) else none := by
  conv_lhs => unfold filterResume
  dsimp only
  rw [hrest]

/-- Does a filter need the same input? -/
def anySame (list : List IoFilterData) : Bool :=
  list.any (fun data => ioFilterInputSame data.filter)

theorem anySame_setOutput (output : FilterBuffer) (list : List IoFilterData) :
    anySame (setOutput output list) = anySame list := by
  match list with
  | [] => rfl
  | [data] => rfl
  | data :: next :: rest =>
    show (_ || anySame (setOutput output (next :: rest))) = (_ || anySame (next :: rest))
    rw [anySame_setOutput output (next :: rest)]

theorem filterResume_none (h : anySame list = false)
    (input : Option Bytes) : filterResume input list = none := by
  induction list generalizing input with
  | nil => rfl
  | cons data rest ih =>
    unfold anySame at h
    rw [any_cons, Bool.or_eq_false_iff] at h
    rw [filterResume_self (fun restInput => ih h.2 restInput), h.1]
    rfl

theorem not_anySame (h : anySame list = false) :
    ∀ data ∈ list, ioFilterInputSame data.filter = false := by
  unfold anySame at h
  rw [any_eq_false] at h
  intro data hdata
  exact Bool.not_eq_true _ ▸ h data hdata

/-- A chain is fed new input when none of its filters needs the same. -/
theorem ChainFed.pass_new (h : ChainFed filters list stream ended pending produced)
    (hcontract : ChainContract filters fns) (hsame : anySame list = false)
    (hinput : InputAllowed ended none input) (hremains : 0 < output.remains) :
    pending = none ∧ ∃ pass data pending', filterPass input (setOutput output list) = .ok pass ∧
      Passed filters (feed stream none input) input.isNone produced output none input pass data
        pending' := by
  obtain rfl := h.pending_none hcontract (not_anySame hsame)
  exact ⟨rfl, h.pass hcontract (fun data hdata => not_anySame hsame data (mem_of_mem_tail hdata))
    (.inl rfl) hinput hremains⟩

/-- **Filters went on with the same input**: the stream is the one before. -/
structure Resumed (filters : List IoFilter) (stream : Bytes) (ended : Bool) (produced : Bytes)
    (output : FilterBuffer) (pending : Option (Option Bytes)) (pass : FilterPass) (data : Bytes) :
    Prop where
  delivered : getOutput output pass.filterList = output.cat data
  last : LastNull output pass.filterList
  fed : ChainFed filters pass.filterList stream ended (if pass.inputUsed then none else pending)
    (produced ++ data)
  used : pass.inputUsed = true → pending ≠ none

theorem pending_unused {used : Bool} {same : Option Bytes}
    (h : (if used then none else pending) = some same) : pending = some same := by
  cases used with
  | true => cases h
  | false => exact h

theorem FilterFed.ended_pending
    (h : FilterFed initial stream ended pending produced filter)
    (hpending : pending = some input) : ended = input.isNone := by
  cases h with
  | new => cases hpending
  | @call _ _ _ _ _ _ _ input' _ _ _ _ _ _ =>
    unfold pendingInput at hpending
    split at hpending
    · rw [Option.some.inj hpending]
    · cases hpending

/-- The first filter goes on with its pending input. -/
theorem ChainFed.resume_first
    (h : ChainFed filters (data :: rest) stream ended pending produced)
    (hcontract : ChainContract filters fns) (houtput : ioFilterOutput data.filter = true)
    (hrest : anySame rest = false) (hpending : pending = some input)
    (hended : ended = input.isNone) (hallowed : InputAllowed ended pending input)
    (hremains : 0 < output.remains) :
    ∃ pass bytes, filterPass input (setOutput output (data :: rest)) = .ok pass ∧
      Resumed filters stream ended produced output pending pass bytes := by
  obtain ⟨pass, bytes, pending', hpass, hpassed⟩ := h.pass hcontract
    (not_anySame hrest)
    (.inr fun first hfirst => by rw [← Option.some.inj hfirst]; exact houtput) hallowed hremains
  refine ⟨pass, bytes, hpass, hpassed.delivered, hpassed.last, ?_, fun _ => ?_⟩
  · have hfed := hpassed.fed
    have hstream : feed stream pending input = stream := by rw [hpending]; rfl
    rw [hstream, ← hended] at hfed
    have heq : pending' = if pass.inputUsed then none else pending := by
      cases hused : pass.inputUsed with
      | true => exact hpassed.used hused
      | false =>
        rcases hpassed.unused hused with heq | ⟨-, -, hnone⟩
        · exact heq.trans hpending.symm
        · cases hnone.symm.trans hpending
    rwa [heq] at hfed
  · rw [hpending]
    exact nofun

theorem clearIf_eq (filter : IoFilter) (output : Option FilterBuffer) (used : Bool) :
    (⟨filter, output⟩ : IoFilterData).clearIf used =
      { filter := filter, output := if used then output.map FilterBuffer.usedZero else output } := by
  cases used <;> rfl

/-- The buffer is cleared when the pending data was used up. -/
theorem FilterLink.resumed {output : Option FilterBuffer}
    (h : FilterLink filter produced output stream ended pending) {used : Bool}
    (hused : used = true → pending ≠ none) :
    FilterLink filter produced (if used then output.map FilterBuffer.usedZero else output) stream
      ended (if used then none else pending) := by
  cases used with
  | false => exact h
  | true =>
    cases h with
    | unseen => exact absurd rfl (hused rfl)
    | seen buffer hsize _ =>
      exact .unseen buffer.usedZero hsize (.inr hsize) (append_nil _).symm
    | closed _ _ hdone _ => exact .closed _ none hdone nofun

theorem FilterLink.pending_data {output : Option FilterBuffer}
    (h : FilterLink filter produced output stream ended pending) (same : Option Bytes)
    (hpending : pending = some same) :
    (⟨filter, output⟩ : IoFilterData).data = same := by
  cases h with
  | unseen => cases hpending
  | seen buffer => exact Option.some.inj hpending
  | closed _ _ _ hnull => exact (hnull same hpending).symm

/-- **Going on feeds the chain.** The induction is on the chain: a filter goes
on only if none of those behind it needs the same input. -/
theorem ChainFed.resume (h : ChainFed filters list stream ended pending produced)
    (hcontract : ChainContract filters fns) (hsame : anySame list = true)
    (hinput : ∀ same, pending = some same → input = same)
    (hremains : 0 < output.remains) :
    ∃ pass data, filterResume input (setOutput output list) = some (.ok pass) ∧
      Resumed filters stream ended produced output pending pass data := by
  induction h generalizing fns input with
  | @last initial filter stream produced ended pending houtput hfed last =>
    cases hcontract with
    | cons hfilter hnil =>
      have hinOut := hfilter.inOut houtput
      have hfilterSame : ioFilterInputSame filter = true := by
        unfold anySame at hsame
        rwa [any_cons, any_nil, Bool.or_false] at hsame
      rw [hfed.inputSame hinOut.inputSame] at hfilterSame
      obtain ⟨same, hpending⟩ := Option.isSome_iff_exists.mp hfilterSame
      obtain rfl := hinput same hpending
      have hchain : ChainFed [initial] [⟨filter, last⟩] stream ended pending
          produced := .last houtput hfed last
      obtain ⟨pass, bytes, hpass, hresumed⟩ := hchain.resume_first (.cons hfilter hnil)
        (hfed.output.trans houtput) rfl hpending (hfed.ended_pending hpending)
        (hfed.allowed hpending) hremains
      refine ⟨pass, bytes, ?_, hresumed⟩
      show filterResume input [⟨filter, some output⟩] = _
      rw [filterResume_self (fun _ => rfl), if_pos]
      · exact congrArg some hpass
      · rw [hfed.inputSame hinOut.inputSame]
        exact hfilterSame
  | @observer initial filters list chunks produced ended pending houtput hrest ih =>
    cases hcontract with
    | cons hfilter hcontract =>
      have hsameRest : anySame list = true := by
        unfold anySame at hsame ⊢
        rw [any_cons, observed_inputSame houtput, Bool.false_or] at hsame
        exact hsame
      obtain ⟨pass, bytes, hpass, hresumed⟩ := ih hcontract hsameRest hinput
      rw [setOutput_cons _ _ hrest.ne_nil]
      refine ⟨_, bytes, filterResume_observer houtput hpass, ?_,
        (lastNull_cons _ _ hresumed.fed.ne_nil).mpr hresumed.last, ?_, hresumed.used⟩
      · exact delivered_cons hresumed.fed hresumed.delivered _
      · exact .observer houtput hresumed.fed
  | @inOut initial filter filters list last stream middle produced streamRest ended endedRest
      pending pendingRest houtput hfed hlink hrest ih =>
    cases hcontract with
    | cons hfilter hcontract =>
      have hinOut := hfilter.inOut houtput
      have hisOutput : ioFilterOutput filter = true := hfed.output.trans houtput
      cases hsameRest : anySame list with
      | true =>
        obtain ⟨pass, bytes, hpass, hresumed⟩ := ih hcontract hsameRest hlink.pending_data
        rw [setOutput_cons _ _ hrest.ne_nil]
        refine ⟨_, bytes, filterResume_inOut hisOutput hpass input, ?_,
          (lastNull_cons _ _ hresumed.fed.ne_nil).mpr hresumed.last, ?_, nofun⟩
        · exact delivered_cons hresumed.fed hresumed.delivered _
        · rw [if_neg nofun]
          have hfedRest := hresumed.fed
          rw [clearIf_eq]
          exact .inOut houtput hfed (hlink.resumed hresumed.used) hfedRest
      | false =>
        have hfilterSame : ioFilterInputSame filter = true := by
          unfold anySame at hsame hsameRest
          rwa [any_cons, hsameRest, Bool.or_false] at hsame
        have hisSome := hfilterSame
        rw [hfed.inputSame hinOut.inputSame] at hisSome
        obtain ⟨same, hpending⟩ := Option.isSome_iff_exists.mp hisSome
        obtain rfl := hinput same hpending
        have hchain : ChainFed (initial :: filters) (⟨filter, last⟩ :: list)
            stream ended pending produced := .inOut houtput hfed hlink hrest
        obtain ⟨pass, bytes, hpass, hresumed⟩ := hchain.resume_first (.cons hfilter hcontract)
          hisOutput hsameRest hpending (hfed.ended_pending hpending) (hfed.allowed hpending) hremains
        refine ⟨pass, bytes, ?_, hresumed⟩
        rw [setOutput_cons _ _ hrest.ne_nil] at hpass ⊢
        have hnone (restInput : Option Bytes) :
            filterResume restInput (setOutput output list) = none :=
          filterResume_none (by rw [anySame_setOutput]; exact hsameRest) restInput
        rw [filterResume_self hnone, if_pos hfilterSame]
        exact congrArg some hpass

end Chain

end PgxBackup
