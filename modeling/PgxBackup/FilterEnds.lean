import PgxBackup.FilterChain

/-!
# A filter group comes to an end

Going on with the same input ends because the first of the filters in question
comes closer to the end of its input, or those before it stay as they are and
those behind it come closer to the end of theirs. Flushing ends filter by
filter from the front.
-/

namespace PgxBackup

open List

variable {filters : List IoFilter} {fns : List (Bytes → Bytes)} {list : List IoFilterData}
variable {stream produced : Bytes} {ended : Bool} {pending : Option (Option Bytes)}

/-! ## The same input -/

/-- A chain goes on with the same input. -/
def ResumeStep (after before : Option (Option Bytes) × List IoFilterData) : Prop :=
  ∃ input output pass, (∀ same, before.1 = some same → input = same) ∧ 0 < output.remains ∧
    filterResume input (setOutput output before.2) = some (.ok pass) ∧
    after = (if pass.inputUsed then none else before.1, pass.filterList)

theorem ResumeStep.anySame {after before : Option (Option Bytes) × List IoFilterData}
    (h : ResumeStep after before) : anySame before.2 = true := by
  obtain ⟨input, output, pass, -, -, hpass, -⟩ := h
  cases hsame : PgxBackup.anySame before.2 with
  | true => rfl
  | false =>
    have hsame' : PgxBackup.anySame (setOutput output before.2) = false := by
      rw [anySame_setOutput]
      exact hsame
    rw [filterResume_none hsame'] at hpass
    cases hpass

theorem filterPass_head {filter filter' : IoFilter} {output output' : FilterBuffer}
    {input : Option Bytes} {rest : List IoFilterData} {pass : FilterPass}
    (houtput : ioFilterOutput filter = true) (hdone : ioFilterDone filter = false)
    (hprocess : ioFilterProcessInOut filter input output = .ok (filter', output'))
    (hpass : filterPass input (⟨filter, some output⟩ :: rest) = .ok pass) :
    pass.inputUsed = !ioFilterInputSame filter' ∧
      ∃ output'' rest', pass.filterList = { filter := filter', output := output'' } :: rest' := by
  by_cases hbreak : (!output'.isFull && !ioFilterDone filter') = true
  · rw [filterPass_break houtput hdone hprocess hbreak] at hpass
    cases hpass
    exact ⟨rfl, _, _, rfl⟩
  · cases hrest : filterPass ({ filter := filter', output := some output' } :
        IoFilterData).nullIf.data rest with
    | ok next =>
      rw [filterPass_next houtput hdone hprocess hbreak hrest] at hpass
      cases hpass
      exact ⟨rfl, _, next.filterList, congrArg (· :: next.filterList) (nullIf_clearIf _ _ _)⟩
    | error error =>
      unfold filterPass at hpass
      dsimp only at hpass
      rw [if_pos houtput, if_neg (by rw [hdone]; exact Bool.false_ne_true), hprocess] at hpass
      replace hpass := (if_neg hbreak).symm.trans hpass
      rw [hrest] at hpass
      cases hpass

/-- The first filter of a chain when it is the last one, or with the chain
behind it. -/
inductive ChainHead (initial filter : IoFilter) (filters : List IoFilter) (stream : Bytes)
    (ended : Bool) (pending : Option (Option Bytes)) (produced : Bytes)
    (output : Option FilterBuffer) : List IoFilterData → Prop
  | last (hfilters : filters = []) (hfed : FilterFed initial stream ended pending produced filter) :
      ChainHead initial filter filters stream ended pending produced output []
  | inOut {list : List IoFilterData} {middle streamRest : Bytes} {endedRest : Bool}
      {pendingRest : Option (Option Bytes)}
      (hfed : FilterFed initial stream ended pending middle filter)
      (hlink : FilterLink filter middle output streamRest endedRest pendingRest)
      (hrest : ChainFed filters list streamRest endedRest pendingRest produced) :
      ChainHead initial filter filters stream ended pending produced output list

section Head

variable {initial filter : IoFilter} {output : Option FilterBuffer}

theorem ChainFed.head (houtput : ioFilterOutput initial = true)
    (h : ChainFed (initial :: filters) (⟨filter, output⟩ :: list) stream ended
      pending produced) :
    ChainHead initial filter filters stream ended pending produced output list := by
  cases h with
  | last _ hfed => exact .last rfl hfed
  | observer hobserver => cases houtput.symm.trans hobserver
  | inOut _ hfed hlink hrest => exact .inOut hfed hlink hrest

theorem ChainHead.fed (houtput : ioFilterOutput initial = true)
    (h : ChainHead initial filter filters stream ended pending produced output list) :
    ChainFed (initial :: filters) (⟨filter, output⟩ :: list) stream ended
      pending produced := by
  cases h with
  | last hfilters hfed =>
    rw [hfilters]
    exact .last houtput hfed output
  | inOut hfed hlink hrest => exact .inOut houtput hfed hlink hrest

section

variable (h : ChainHead initial filter filters stream ended pending produced output list)
include h

theorem ChainHead.filterFed : ∃ middle, FilterFed initial stream ended pending middle filter := by
  cases h with
  | last _ hfed => exact ⟨_, hfed⟩
  | inOut hfed _ _ => exact ⟨_, hfed⟩

theorem ChainHead.setOutput (hcontract : ChainContract filters fns)
    (hdone : ioFilterDone filter = false) (hrest : PgxBackup.anySame list = false)
    {last : FilterBuffer} (hlast : 0 < last.remains) :
    ∃ buffer, 0 < buffer.remains ∧
      PgxBackup.setOutput last (⟨filter, output⟩ :: list) =
        ⟨filter, some buffer⟩ :: PgxBackup.setOutput last list := by
  cases h with
  | last => exact ⟨last, hlast, rfl⟩
  | inOut hfed hlink hfedRest =>
    have hnone := hfedRest.pending_none hcontract (not_anySame hrest)
    subst hnone
    cases hlink with
    | unseen buffer hsize hspace _ =>
      refine ⟨buffer, hspace.resolve_left ?_, setOutput_cons _ _ hfedRest.ne_nil⟩
      rw [hdone]
      exact Bool.false_ne_true
    | closed _ _ hclosed _ => cases hclosed.symm.trans hdone

/-- **The first filter is called**: what it becomes, and the chain then. -/
theorem ChainHead.step (hcontract : ChainContract filters fns) {fn : Bytes → Bytes}
    (hinOut : InOutContract initial fn) (hdone : ioFilterDone filter = false)
    (hrest : PgxBackup.anySame list = false) {input : Option Bytes}
    (hallowed : InputAllowed ended pending input) {last : FilterBuffer} (hlast : 0 < last.remains)
    {pass : FilterPass} (hpass : filterPass input
      (PgxBackup.setOutput last (⟨filter, output⟩ :: list)) = .ok pass) :
    ∃ buffer filter' output' output'' list' produced' pending', 0 < buffer.remains ∧
      ioFilterProcessInOut filter input buffer = .ok (filter', output') ∧
      pass.inputUsed = !ioFilterInputSame filter' ∧
      pass.filterList = { filter := filter', output := output'' } :: list' ∧
      pending' = pendingInput filter' input ∧
      ChainHead initial filter' filters (feed stream pending input) input.isNone pending' produced'
        output'' list' := by
  obtain ⟨middle, hfed⟩ := h.filterFed
  obtain ⟨buffer, hremains, hset⟩ := h.setOutput hcontract hdone hrest hlast
  obtain ⟨filter', data, hprocess, -⟩ := hfed.process hinOut hdone hallowed hremains
  have hisOutput : ioFilterOutput filter = true := hfed.output.trans hinOut.output
  have hhead := hpass
  rw [hset] at hhead
  obtain ⟨hused, output'', list', hlist⟩ := filterPass_head hisOutput hdone hprocess hhead
  obtain ⟨pass', bytes, pending', hpass', hpassed⟩ := (h.fed hinOut.output).pass
    (.cons hinOut.contract hcontract) (not_anySame hrest)
    (.inr fun first hfirst => by rw [← Option.some.inj hfirst]; exact hisOutput) hallowed hlast
  rw [hpass] at hpass'
  cases hpass'
  have hchain := hpassed.fed
  rw [hlist] at hchain
  have hnew := hchain.head hinOut.output
  obtain ⟨middle', hfed'⟩ := hnew.filterFed
  have hpending : pending' = pendingInput filter' input := by
    have hsome := hfed'.inputSame hinOut.inputSame
    unfold pendingInput
    cases hused' : pass.inputUsed with
    | true =>
      rw [hpassed.used hused'] at hsome ⊢
      rw [hsome]
      rfl
    | false =>
      rw [hused] at hused'
      rw [Bool.not_eq_false'] at hused'
      rw [if_pos hused']
      rw [hused'] at hsome
      rcases hpassed.unused (by rw [hused, hused']; rfl) with heq | ⟨heq, -⟩
      · exact heq
      · rw [heq] at hsome
        cases hsome
  exact ⟨buffer, filter', _, output'', list', _, pending', hremains, hprocess, hused, hlist,
    hpending, hnew⟩

end

/-- **The filters behind the first one go on**, as long as one of them needs the
same input. -/
theorem ChainHead.resume_acc (hcontract : ChainContract filters fns)
    (hinOut : ioFilterOutput initial = true)
    (hrestAcc : ∀ list stream ended pending produced,
      ChainFed filters list stream ended pending produced → Acc ResumeStep (pending, list))
    (hhead : ∀ output list produced,
      ChainHead initial filter filters stream ended pending produced output list →
        PgxBackup.anySame list = false →
          ∀ after, ResumeStep after (pending, ⟨filter, output⟩ :: list) →
            Acc ResumeStep after)
    (h : ChainHead initial filter filters stream ended pending produced output list) :
    Acc ResumeStep (pending, ⟨filter, output⟩ :: list) := by
  cases h with
  | last hfilters hfed => exact .intro _ (hhead output [] produced (.last hfilters hfed) rfl)
  | @inOut _ middle streamRest endedRest pendingRest hfed hlink hrest =>
    have hacc := hrestAcc _ _ _ _ _ hrest
    generalize hstate : (pendingRest, list) = state at hacc
    induction hacc generalizing pendingRest list output produced with
    | intro state _ ih =>
      subst hstate
      refine .intro _ fun after hstep => ?_
      cases hsame : PgxBackup.anySame list with
      | false => exact hhead output list produced (.inOut hfed hlink hrest) hsame after hstep
      | true =>
        obtain ⟨input, last, pass, hinput, hremains, hpass, rfl⟩ := hstep
        obtain ⟨next, bytes, hnext, hresumed⟩ := hrest.resume hcontract hsame hlink.pending_data hremains
        have hisOutput : ioFilterOutput filter = true := hfed.output.trans hinOut
        rw [setOutput_cons _ _ hrest.ne_nil, filterResume_inOut hisOutput hnext] at hpass
        rw [← Except.ok.inj (Option.some.inj hpass), clearIf_eq]
        exact ih _ ⟨_, last, next, hlink.pending_data, hremains, hnext, rfl⟩
          (hlink.resumed hresumed.used) hresumed.fed rfl

/-- **Going on comes to an end.** -/
theorem ChainFed.resume_ends (hcontract : ChainContract filters fns)
    (h : ChainFed filters list stream ended pending produced) :
    Acc ResumeStep (pending, list) := by
  induction filters generalizing fns list stream ended pending produced with
  | nil => cases h
  | cons initial filters ih =>
    cases hcontract with
    | @cons _ fn _ fns hfilter hcontract =>
      have hrestAcc (list : List IoFilterData) (stream : Bytes) (ended : Bool)
          (pending : Option (Option Bytes)) (produced : Bytes)
          (hrest : ChainFed filters list stream ended pending produced) :
          Acc ResumeStep (pending, list) := ih hcontract hrest
      cases houtput : ioFilterOutput initial with
      | false =>
        cases h with
        | last hinOut | inOut hinOut => cases houtput.symm.trans hinOut
        | @observer _ _ list chunks _ _ _ _ hrest =>
          have hacc := hrestAcc _ _ _ _ _ hrest
          generalize hstate : (pending, list) = state at hacc
          induction hacc generalizing pending list produced with
          | intro state _ ihacc =>
            subst hstate
            refine .intro _ fun after hstep => ?_
            have hsame := hstep.anySame
            unfold anySame at hsame
            rw [any_cons, observed_inputSame houtput, Bool.false_or] at hsame
            obtain ⟨input, last, pass, hinput, hremains, hpass, rfl⟩ := hstep
            obtain ⟨next, bytes, hnext, hresumed⟩ := hrest.resume hcontract hsame hinput hremains
            rw [setOutput_cons _ _ hrest.ne_nil, filterResume_observer houtput hnext] at hpass
            rw [← Except.ok.inj (Option.some.inj hpass)]
            exact ihacc _ ⟨input, last, next, hinput, hremains, hnext, rfl⟩ hresumed.fed rfl
      | true =>
        have hinOut := hfilter.inOut houtput
        obtain ⟨⟨filter, output⟩, rest, rfl⟩ := exists_cons_of_ne_nil h.ne_nil
        -- a filter that does not need the same input
        have hnone {filter : IoFilter} {output : Option FilterBuffer} {rest : List IoFilterData}
            {stream produced : Bytes} {ended : Bool}
            (h : ChainHead initial filter filters stream ended none produced output rest) :
            Acc ResumeStep (none, ⟨filter, output⟩ :: rest) := by
          refine h.resume_acc hcontract houtput hrestAcc fun output list produced hhead hrest
            after hstep => ?_
          obtain ⟨middle, hfed⟩ := hhead.filterFed
          have hsame := hstep.anySame
          unfold anySame at hsame hrest
          rw [any_cons, hrest, Bool.or_false, hfed.inputSame hinOut.inputSame] at hsame
          cases hsame
        have hhead := h.head houtput
        cases pending with
        | none => exact hnone hhead
        | some same =>
          obtain ⟨middle, hfed⟩ := hhead.filterFed
          have hsameEnds := hinOut.same _ _ _ _ _ _ hfed (hfed.allowed rfl)
          clear h hfed
          induction hsameEnds generalizing output rest stream ended produced middle with
          | intro filter _ ihsame =>
            refine hhead.resume_acc hcontract houtput hrestAcc fun output list produced hhead hrest
              after hstep => ?_
            obtain ⟨middle, hfed⟩ := hhead.filterFed
            have hfilterSame : ioFilterInputSame filter = true :=
              hfed.inputSame hinOut.inputSame
            have hdone : ioFilterDone filter = false := by
              rw [← Bool.not_eq_true]
              intro hdone
              exact absurd (hfed.of_done hinOut hdone).2 nofun
            obtain ⟨input, last, pass, hinput, hremains, hpass, rfl⟩ := hstep
            obtain rfl := hinput same rfl
            have hself : filterResume input
                (setOutput last (⟨filter, output⟩ :: list)) =
                some (filterPass input
                  (setOutput last (⟨filter, output⟩ :: list))) := by
              obtain ⟨buffer, -, hset⟩ := hhead.setOutput hcontract hdone hrest hremains
              rw [hset, filterResume_self, if_pos hfilterSame]
              exact filterResume_none (by rw [anySame_setOutput]; exact hrest)
            rw [hself] at hpass
            obtain ⟨buffer, filter', output', output'', list', produced', pending', hbuffer, hprocess,
              hused, hlist, hpending, hnew⟩ := hhead.step hcontract hinOut hdone hrest
                (hfed.allowed rfl) hremains (Option.some.inj hpass)
            rw [hlist, hused]
            unfold pendingInput at hpending
            cases hsame' : ioFilterInputSame filter' with
            | false =>
              rw [hsame', if_neg Bool.false_ne_true] at hpending
              subst hpending
              exact hnone hnew
            | true =>
              rw [hsame', if_pos rfl] at hpending
              subst hpending
              exact ihsame buffer filter' output' hbuffer hprocess hsame' output'' list' hnew produced'

end Head

/-! ## Flushing -/

/-- Filters go on with the same input, or are processed from the first one. -/
def filterTurn (input : Option Bytes) (list : List IoFilterData) : Except Error FilterPass :=
  (filterResume input list).getD (filterPass input list)

def allDone (list : List IoFilterData) : Bool := list.all (fun data => ioFilterDone data.filter)

/-- A chain that is not done is flushed. -/
def FlushStep (after before : List IoFilterData) : Prop :=
  allDone before = false ∧ ∃ output pass, 0 < output.remains ∧
    filterTurn none (setOutput output before) = .ok pass ∧ after = pass.filterList

/-- Nothing but `NULL` is pending. -/
def OnlyNull (pending : Option (Option Bytes)) : Prop := ∀ same, pending = some same → same = none

theorem filterTurn_same {input : Option Bytes} {pass : FilterPass}
    (h : filterResume input list = some (.ok pass)) : filterTurn input list = .ok pass := by
  unfold filterTurn
  rw [h]
  rfl

theorem filterTurn_pass (h : anySame list = false) (input : Option Bytes) :
    filterTurn input list = filterPass input list := by
  unfold filterTurn
  rw [filterResume_none h]
  rfl

/-- **Flushing feeds the chain** `NULL`. -/
theorem ChainFed.flush (h : ChainFed filters list stream ended pending produced)
    (hcontract : ChainContract filters fns) (hpending : OnlyNull pending) {output : FilterBuffer}
    (hremains : 0 < output.remains) :
    ∃ pass data ended' pending', filterTurn none (setOutput output list) = .ok pass ∧
      getOutput output pass.filterList = output.cat data ∧ LastNull output pass.filterList ∧
      ChainFed filters pass.filterList stream ended' pending' (produced ++ data) ∧
      OnlyNull pending' := by
  cases hsame : anySame list with
  | true =>
    obtain ⟨pass, data, hpass, hresumed⟩ := h.resume hcontract hsame
      (fun same heq => (hpending same heq).symm) hremains
    refine ⟨pass, data, ended, _, filterTurn_same hpass, hresumed.delivered, hresumed.last,
      hresumed.fed, fun same heq => hpending same (pending_unused heq)⟩
  | false =>
    obtain ⟨rfl, pass, data, pending', hpass, hpassed⟩ :=
      h.pass_new hcontract hsame (.null ended) hremains
    have hfed := hpassed.fed
    rw [feed_none] at hfed
    refine ⟨pass, data, _, pending', ?_, hpassed.delivered, hpassed.last, hfed,
      fun same heq => (hpassed.same heq).symm⟩
    rw [filterTurn_pass (by rw [anySame_setOutput]; exact hsame)]
    exact hpass

section Flush

variable {initial filter : IoFilter} {output : Option FilterBuffer} {middle streamRest : Bytes}
variable {endedRest : Bool} {pendingRest : Option (Option Bytes)} {fn : Bytes → Bytes}

/-- The filters behind a filter go on while it is flushed. What is known of its
buffer is kept. -/
theorem flush_rest {P : Option FilterBuffer → Option (Option Bytes) → Prop}
    (hP : ∀ output pending used, (used = true → pending ≠ none) → P output pending →
      P (if used then output.map FilterBuffer.usedZero else output) (if used then none else pending))
    (hcontract : ChainContract filters fns) (hisOutput : ioFilterOutput filter = true)
    (hhead : ∀ output list streamRest endedRest produced,
      FilterLink filter middle output streamRest endedRest none →
        ChainFed filters list streamRest endedRest none produced → P output none →
          anySame list = false →
            ∀ after, FlushStep after (⟨filter, output⟩ :: list) →
              Acc FlushStep after)
    (hlink : FilterLink filter middle output streamRest endedRest pendingRest)
    (hrest : ChainFed filters list streamRest endedRest pendingRest produced)
    (hp : P output pendingRest) :
    Acc FlushStep (⟨filter, output⟩ :: list) := by
  have hacc := hrest.resume_ends hcontract
  generalize hstate : (pendingRest, list) = state at hacc
  induction hacc generalizing pendingRest list output produced with
  | intro state _ ih =>
    subst hstate
    refine .intro _ fun after hstep => ?_
    cases hsame : anySame list with
    | false =>
      obtain rfl := hrest.pending_none hcontract (not_anySame hsame)
      exact hhead output list _ _ produced hlink hrest hp hsame after hstep
    | true =>
      obtain ⟨-, last, pass, hremains, hpass, rfl⟩ := hstep
      obtain ⟨next, bytes, hnext, hresumed⟩ := hrest.resume hcontract hsame hlink.pending_data hremains
      rw [setOutput_cons _ _ hrest.ne_nil,
        filterTurn_same (filterResume_inOut hisOutput hnext none)] at hpass
      rw [← Except.ok.inj hpass, clearIf_eq]
      exact ih _ ⟨_, last, next, hlink.pending_data, hremains, hnext, rfl⟩ (hlink.resumed hresumed.used)
        hresumed.fed (hP _ _ _ hresumed.used hp) rfl

/-- When the buffer of a filter is `NULL` those behind it are flushed. -/
theorem flush_closed (hcontract : ChainContract filters fns)
    (hisOutput : ioFilterOutput filter = true) (hdone : ioFilterDone filter = true)
    (hsame : ioFilterInputSame filter = false)
    (hrest : ChainFed filters list stream ended pending produced) (hpending : OnlyNull pending)
    (hacc : Acc FlushStep list) :
    Acc FlushStep (⟨filter, none⟩ :: list) := by
  induction hacc generalizing ended pending produced with
  | intro list _ ih =>
    refine .intro _ fun after hstep => ?_
    obtain ⟨hnotDone, last, pass, hremains, hpass, rfl⟩ := hstep
    have hnotDoneRest : allDone list = false := by
      unfold allDone at hnotDone
      rwa [all_cons, hdone, Bool.true_and] at hnotDone
    obtain ⟨next, bytes, ended', pending', hnext, -, -, hfed, hpending'⟩ :=
      hrest.flush hcontract hpending hremains
    have hturn : filterTurn none (setOutput last (⟨filter, none⟩ :: list)) =
        .ok { filterList := ⟨filter, none⟩ :: next.filterList
              inputSame := next.inputSame, inputUsed := false } := by
      rw [setOutput_cons _ _ hrest.ne_nil]
      cases hsameRest : anySame list with
      | true =>
        obtain ⟨next', -, hnext', -⟩ := hrest.resume hcontract hsameRest
          (fun same heq => (hpending same heq).symm) hremains
        rw [filterTurn_same hnext'] at hnext
        obtain rfl := Except.ok.inj hnext
        have hdata : (⟨filter, none⟩ : IoFilterData).data = none := rfl
        rw [filterTurn_same (filterResume_inOut hisOutput (by rw [hdata]; exact hnext') none),
          clearIf_eq]
        cases next'.inputUsed <;> rfl
      | false =>
        have hsameRest' : anySame (setOutput last list) = false := by
          rw [anySame_setOutput]
          exact hsameRest
        rw [filterTurn_pass hsameRest'] at hnext
        rw [filterTurn_pass, filterPass_closed hisOutput hnext]
        unfold anySame at hsameRest' ⊢
        rw [any_cons, hsame, hsameRest']
        rfl
    rw [hturn] at hpass
    cases hpass
    exact ih _ ⟨hnotDoneRest, last, next, hremains, hnext, rfl⟩ hfed hpending'

theorem filterTurn_head {data : IoFilterData} (h : anySame list = false) (input : Option Bytes) :
    filterTurn input (data :: list) = filterPass input (data :: list) := by
  unfold filterTurn
  rw [filterResume_self (fun restInput => filterResume_none h restInput)]
  split <;> rfl

theorem flush_pass (hisOutput : ioFilterOutput filter = true) (hdone : ioFilterDone filter = true)
    {buffer last : FilterBuffer} {input : Option Bytes} {output' : Option FilterBuffer}
    (hnull : (⟨filter, some buffer⟩ : IoFilterData).nullIf =
      { filter := filter, output := output' })
    (hinput : ({ filter := filter, output := output' } : IoFilterData).data = input)
    (hlist : list ≠ []) (hsame : anySame list = false) {pass next : FilterPass}
    (hnext : filterPass input (setOutput last list) = .ok next)
    (hpass : filterTurn none
      (setOutput last (⟨filter, some buffer⟩ :: list)) = .ok pass) :
    pass.filterList = { filter := filter
                        output := if next.inputUsed then output'.map FilterBuffer.usedZero
                          else output' } :: next.filterList := by
  rw [setOutput_cons _ _ hlist, filterTurn_head (by rw [anySame_setOutput]; exact hsame),
    filterPass_done hisOutput hdone (by rw [hnull, hinput]; exact hnext)] at hpass
  rw [← Except.ok.inj hpass, hnull, clearIf_eq]

/-- **A filter that is done** passes on what is in its buffer, then the end of
its output. -/
theorem flush_done (hcontract : ChainContract filters fns)
    (hrestAcc : ∀ list stream ended pending produced,
      ChainFed filters list stream ended pending produced → OnlyNull pending → Acc FlushStep list)
    (hisOutput : ioFilterOutput filter = true) (hdone : ioFilterDone filter = true)
    (hsame : ioFilterInputSame filter = false)
    (hlink : FilterLink filter middle output streamRest endedRest pendingRest)
    (hrest : ChainFed filters list streamRest endedRest pendingRest produced) :
    Acc FlushStep (⟨filter, output⟩ :: list) := by
  have hclosed {list : List IoFilterData} {stream produced : Bytes} {ended : Bool}
      {pending : Option (Option Bytes)}
      (hrest : ChainFed filters list stream ended pending produced) (hpending : OnlyNull pending) :
      Acc FlushStep (⟨filter, none⟩ :: list) :=
    flush_closed hcontract hisOutput hdone hsame hrest hpending
      (hrestAcc _ _ _ _ _ hrest hpending)
  -- everything that the filter has put in its buffer was passed on
  have hseen {list : List IoFilterData} {output : Option FilterBuffer} {streamRest produced : Bytes}
      {endedRest : Bool} {pendingRest : Option (Option Bytes)}
      (hlink : FilterLink filter middle output streamRest endedRest pendingRest)
      (hrest : ChainFed filters list streamRest endedRest pendingRest produced)
      (hp : pendingRest = none → ∀ buffer, output = some buffer → buffer.data = []) :
      Acc FlushStep (⟨filter, output⟩ :: list) := by
    refine flush_rest
      (P := fun output pending => pending = none → ∀ buffer, output = some buffer →
        buffer.data = []) ?_ hcontract hisOutput ?_ hlink hrest hp
    · intro output pending used hused hp hnone buffer hbuffer
      cases used with
      | false => exact hp hnone buffer hbuffer
      | true =>
        obtain ⟨old, -, rfl⟩ := Option.map_eq_some_iff.mp hbuffer
        rfl
    · intro output list streamRest endedRest produced hlink hrest hp hsameRest after hstep
      cases hlink with
      | closed _ _ _ hnull => exact (hclosed hrest nofun).inv hstep
      | unseen buffer hsize hspace hproduced =>
        obtain ⟨-, last, pass, hremains, hpass, rfl⟩ := hstep
        obtain ⟨-, next, bytes, pending', hnext, hpassed⟩ :=
          hrest.pass_new hcontract hsameRest (.null false) hremains
        rw [flush_pass hisOutput hdone (nullIf_nil hdone (hp rfl buffer rfl)) rfl hrest.ne_nil
          hsameRest hnext hpass]
        have hfed := hclosed hpassed.fed fun same heq => (hpassed.same heq).symm
        cases next.inputUsed <;> exact hfed
  refine flush_rest (P := fun _ _ => True) (fun _ _ _ _ _ => trivial) hcontract hisOutput ?_ hlink
    hrest trivial
  intro output list streamRest endedRest produced hlink hrest _ hsameRest after hstep
  cases hlink with
  | closed _ _ _ hnull => exact (hclosed hrest nofun).inv hstep
  | unseen buffer hsize hspace hproduced =>
    by_cases hdata : buffer.data = []
    · refine (hseen (.unseen buffer hsize hspace hproduced) hrest fun _ buffer' hbuffer => ?_).inv
        hstep
      rw [← Option.some.inj hbuffer]
      exact hdata
    · obtain ⟨-, last, pass, hremains, hpass, rfl⟩ := hstep
      obtain ⟨-, next, bytes, pending', hnext, hpassed⟩ :=
        hrest.pass_new hcontract hsameRest (.data hdata) hremains
      have hfed := hpassed.fed
      rw [show feed streamRest none (some buffer.data) = middle from hproduced.symm] at hfed
      rw [flush_pass hisOutput hdone (nullIf_data hdata) rfl hrest.ne_nil hsameRest hnext hpass]
      cases hused : next.inputUsed with
      | true =>
        rw [hpassed.used hused] at hfed
        refine hseen (.unseen buffer.usedZero hsize (.inr hsize) (append_nil _).symm) hfed
          fun _ buffer' hbuffer => ?_
        rw [← Option.some.inj hbuffer]
        rfl
      | false =>
        rcases hpassed.unused hused with rfl | ⟨-, hnone, -⟩
        · exact hseen (.seen buffer hsize hdata) hfed nofun
        · cases hnone

theorem ChainFed.ended_of_done (h : ChainFed filters list stream ended pending produced)
    (hcontract : ChainContract filters fns) (hdone : allDone list = true) : ended = true := by
  unfold allDone at hdone
  cases h with
  | last houtput hfed | inOut houtput hfed =>
    cases hcontract with
    | cons hfilter _ =>
      rw [all_cons, Bool.and_eq_true] at hdone
      exact hfed.ended_of_done (hfilter.inOut houtput).flushing hdone.1
  | observer houtput _ =>
    rw [all_cons, Bool.and_eq_true, observed_done houtput] at hdone
    exact hdone.1

theorem flush_observer (hcontract : ChainContract filters fns)
    (houtput : ioFilterOutput initial = false) {chunks : List Bytes}
    (hrest : ChainFed filters list chunks.flatten ended pending produced)
    (hpending : OnlyNull pending) (hacc : Acc FlushStep list) :
    Acc FlushStep ({ filter := initial.observed chunks ended, output := none } :: list) := by
  induction hacc generalizing chunks ended pending produced with
  | intro list _ ih =>
    refine .intro _ fun after hstep => ?_
    obtain ⟨hnotDone, last, pass, hremains, hpass, rfl⟩ := hstep
    have hnotDoneRest : allDone list = false := by
      rw [← Bool.not_eq_true]
      intro hdone
      have hended := hrest.ended_of_done hcontract hdone
      unfold allDone at hnotDone hdone
      rw [all_cons, observed_done houtput, hended, hdone] at hnotDone
      cases hnotDone
    rw [setOutput_cons _ _ hrest.ne_nil] at hpass
    cases hsame : anySame list with
    | true =>
      obtain ⟨next, bytes, hnext, hresumed⟩ := hrest.resume hcontract hsame
        (fun same heq => (hpending same heq).symm) hremains
      have hisOutput : ioFilterOutput (initial.observed chunks ended) = false := houtput
      rw [filterTurn_same (filterResume_observer hisOutput hnext)] at hpass
      cases hpass
      refine ih _ ⟨hnotDoneRest, last, next, hremains, filterTurn_same hnext, rfl⟩ hresumed.fed
        fun same heq => hpending same (pending_unused heq)
    | false =>
      have hsame' : anySame (setOutput last list) = false := by
        rw [anySame_setOutput]
        exact hsame
      obtain ⟨rfl, next, bytes, pending', hnext, hpassed⟩ :=
        hrest.pass_new hcontract hsame (.null ended) hremains
      obtain ⟨chunks', hflatten, hobserved⟩ :=
        ioFilterProcessIn_observed chunks (.null ended) houtput rfl
      have hisOutput : ioFilterOutput (initial.observed chunks ended) = false := houtput
      rw [filterTurn_head hsame', filterPass_observer hisOutput hobserved hnext] at hpass
      cases hpass
      have hfed := hpassed.fed
      rw [← hflatten] at hfed
      exact ih _ ⟨hnotDoneRest, last, next, hremains,
        (filterTurn_pass hsame' none).trans hnext, rfl⟩ hfed
        fun same heq => (hpassed.same heq).symm

end Flush

/-- **Flushing comes to an end.** The induction is on the filters: each of them
is done after a number of calls, then those behind it are flushed. -/
theorem ChainFed.flush_ends (hcontract : ChainContract filters fns)
    (h : ChainFed filters list stream ended pending produced) (hpending : OnlyNull pending) :
    Acc FlushStep list := by
  induction filters generalizing fns list stream ended pending produced with
  | nil => cases h
  | cons initial filters ih =>
    cases hcontract with
    | @cons _ fn _ fns hfilter hcontract =>
      have hrestAcc (list : List IoFilterData) (stream : Bytes) (ended : Bool)
          (pending : Option (Option Bytes)) (produced : Bytes)
          (hrest : ChainFed filters list stream ended pending produced)
          (hpending : OnlyNull pending) : Acc FlushStep list := ih hcontract hrest hpending
      cases houtput : ioFilterOutput initial with
      | false =>
        cases h with
        | last hinOut | inOut hinOut => cases houtput.symm.trans hinOut
        | observer _ hrest =>
          exact flush_observer hcontract houtput hrest hpending
            (hrestAcc _ _ _ _ _ hrest hpending)
      | true =>
        have hinOut := hfilter.inOut houtput
        have hdoneEnds {filter : IoFilter} {output : Option FilterBuffer}
            {rest : List IoFilterData} {stream produced : Bytes} {ended : Bool}
            {pending : Option (Option Bytes)} (hdone : ioFilterDone filter = true)
            (hhead : ChainHead initial filter filters stream ended pending produced output rest) :
            Acc FlushStep (⟨filter, output⟩ :: rest) := by
          cases hhead with
          | last =>
            refine .intro _ fun after hstep => ?_
            have hnotDone := hstep.1
            unfold allDone at hnotDone
            rw [all_cons, hdone] at hnotDone
            cases hnotDone
          | inOut hfed hlink hrest =>
            exact flush_done hcontract hrestAcc (hfed.output.trans houtput) hdone
              (hinOut.produced _ _ _ _ _ hfed hdone).2 hlink hrest
        obtain ⟨⟨filter, output⟩, rest, rfl⟩ := exists_cons_of_ne_nil h.ne_nil
        have hhead := h.head houtput
        cases hdone : ioFilterDone filter with
        | true => exact hdoneEnds hdone hhead
        | false =>
          have hallowed {ended : Bool} {pending : Option (Option Bytes)}
              (hpending : OnlyNull pending) : InputAllowed ended pending none :=
            ⟨fun same heq => (hpending same heq).symm, nofun, fun _ => rfl⟩
          obtain ⟨middle, hfed⟩ := hhead.filterFed
          have hflush := hinOut.flush _ _ _ _ _ hfed (hallowed hpending)
          clear h hfed
          induction hflush generalizing output rest stream ended pending produced middle with
          | intro filter _ ihflush =>
            have hcall {output : Option FilterBuffer} {rest : List IoFilterData}
                {produced : Bytes}
                (hhead : ChainHead initial filter filters stream ended pending produced output rest)
                (hrest : anySame rest = false) (after : List IoFilterData)
                (hstep : FlushStep after (⟨filter, output⟩ :: rest)) :
                Acc FlushStep after := by
              obtain ⟨-, last, pass, hremains, hpass, rfl⟩ := hstep
              obtain ⟨buffer, -, hset⟩ := hhead.setOutput hcontract hdone hrest hremains
              rw [hset, filterTurn_head (by rw [anySame_setOutput]; exact hrest), ← hset] at hpass
              obtain ⟨buffer, filter', output', output'', list', produced', pending', hbuffer,
                hprocess, -, hlist, rfl, hnew⟩ :=
                hhead.step hcontract hinOut hdone hrest (hallowed hpending) hremains hpass
              rw [hlist]
              cases hdone' : ioFilterDone filter' with
              | true => exact hdoneEnds hdone' hnew
              | false =>
                obtain ⟨middle', -⟩ := hnew.filterFed
                refine ihflush buffer filter' output' hbuffer hprocess hdone' (fun same heq => ?_)
                  output'' list' hnew hdone' middle'
                unfold pendingInput at heq
                split at heq
                · exact (Option.some.inj heq).symm
                · cases heq
            cases hhead with
            | last hfilters hfed => exact .intro _ (hcall (.last hfilters hfed) rfl)
            | inOut hfed hlink hrest =>
              refine flush_rest (P := fun _ _ => True) (fun _ _ _ _ _ => trivial) hcontract
                (hfed.output.trans houtput) ?_ hlink hrest trivial
              intro output list streamRest endedRest produced hlink hrest _ hsame after hstep
              exact hcall (.inOut hfed hlink hrest) hsame after hstep

end PgxBackup
