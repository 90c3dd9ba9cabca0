import Mathlib.Logic.Relation
import PgxBackup.FilterEnds

/-!
# A filter group computes the composition of its filters

Each call processes filters until its output buffer is full or new input is
needed. All calls together feed the stream to the chain and then flush it. When
all filters are done no data is left in the buffers between them, so what the
last filter has produced is the composition of the functions.
-/

namespace PgxBackup

open List Relation

variable {filters : List IoFilter} {fns : List (Bytes → Bytes)} {list : List IoFilterData}
variable {stream produced : Bytes} {ended : Bool} {pending : Option (Option Bytes)}

/-! ## A chain that is done -/

section

variable (h : ChainFed filters list stream ended pending produced)
  (hcontract : ChainContract filters fns)
include h hcontract

/-- The last filter of a chain is done after all others. -/
theorem ChainFed.done_of_last (hlast : ∀ data ∈ list.getLast?, ioFilterDone data.filter = true) :
    ended = true ∧ allDone list = true := by
  unfold allDone
  induction h generalizing fns with
  | @last initial filter _ _ _ _ houtput hfed output =>
    cases hcontract with
    | cons hfilter _ =>
      have hdone : ioFilterDone filter = true := hlast _ rfl
      rw [all_cons, hdone]
      exact ⟨hfed.ended_of_done (hfilter.inOut houtput).flushing hdone, rfl⟩
  | observer houtput hrest ih =>
    cases hcontract with
    | cons _ hcontract =>
      rw [getLast?_cons_of_ne_nil hrest.ne_nil] at hlast
      obtain ⟨hended, hdone⟩ := ih hcontract hlast
      rw [all_cons, hdone, observed_done houtput, hended]
      exact ⟨rfl, rfl⟩
  | inOut houtput hfed hlink hrest ih =>
    cases hcontract with
    | cons hfilter hcontract =>
      rw [getLast?_cons_of_ne_nil hrest.ne_nil] at hlast
      obtain ⟨hended, hdone⟩ := ih hcontract hlast
      cases hlink with
      | unseen | seen => cases hended
      | closed _ _ hclosed _ =>
        rw [all_cons, hdone, hclosed]
        exact ⟨hfed.ended_of_done (hfilter.inOut houtput).flushing hclosed, rfl⟩

theorem ChainFed.same_of_done (hdone : allDone list = true) : anySame list = false := by
  unfold allDone at hdone
  unfold anySame
  induction h generalizing fns with
  | last houtput hfed output =>
    cases hcontract with
    | cons hfilter _ =>
      rw [all_cons, Bool.and_eq_true] at hdone
      rw [any_cons, ((hfilter.inOut houtput).produced _ _ _ _ _ hfed hdone.1).2]
      rfl
  | observer houtput hrest ih =>
    cases hcontract with
    | cons _ hcontract =>
      rw [all_cons, Bool.and_eq_true] at hdone
      rw [any_cons, observed_inputSame houtput, ih hcontract hdone.2]
      rfl
  | inOut houtput hfed hlink hrest ih =>
    cases hcontract with
    | cons hfilter hcontract =>
      rw [all_cons, Bool.and_eq_true] at hdone
      rw [any_cons, ((hfilter.inOut houtput).produced _ _ _ _ _ hfed hdone.1).2,
        ih hcontract hdone.2]
      rfl

end

/-- The composition of the functions of the filters. -/
def compose (fns : List (Bytes → Bytes)) (stream : Bytes) : Bytes :=
  fns.foldl (fun data fn => fn data) stream

/-- **A chain that is done** has produced the composition of its functions, and
each filter that only observes its input has seen what those before it
produced. -/
theorem ChainFed.done (h : ChainFed filters list stream ended pending produced)
    (hcontract : ChainContract filters fns) (hdone : allDone list = true) :
    produced = compose fns stream ∧
      ∀ (filterIdx : ℕ) (filter : IoFilter), filters[filterIdx]? = some filter →
        ioFilterOutput filter = false →
          ∃ chunks, chunks.flatten = compose (fns.take filterIdx) stream ∧
            (list[filterIdx]?).map IoFilterData.filter = some (filter.observed chunks true) := by
  have hended := h.ended_of_done hcontract hdone
  unfold allDone at hdone
  induction h generalizing fns with
  | last houtput hfed output =>
    cases hcontract with
    | cons hfilter hnil =>
      cases hnil
      rw [all_cons, Bool.and_eq_true] at hdone
      refine ⟨((hfilter.inOut houtput).produced _ _ _ _ _ hfed hdone.1).1,
        fun filterIdx filter hidx hobserver => ?_⟩
      cases filterIdx with
      | zero =>
        rw [← Option.some.inj hidx] at hobserver
        cases hobserver.symm.trans houtput
      | succ filterIdx => cases hidx
  | @observer initial filters list chunks produced ended pending houtput hrest ih =>
    cases hcontract with
    | cons hfilter hcontract =>
      obtain ⟨-, rfl⟩ := hfilter.observer houtput
      rw [all_cons, Bool.and_eq_true] at hdone
      obtain ⟨hproduced, hobserved⟩ := ih hcontract hdone.2 hended
      refine ⟨hproduced, fun filterIdx filter hidx hobserver => ?_⟩
      cases filterIdx with
      | zero =>
        refine ⟨chunks, rfl, ?_⟩
        rw [← Option.some.inj hidx, hended]
        rfl
      | succ filterIdx => exact hobserved filterIdx filter hidx hobserver
  | @inOut initial filter filters list output stream middle produced streamRest ended endedRest
      pending pendingRest houtput hfed hlink hrest ih =>
    cases hcontract with
    | @cons _ fn _ fns hfilter hcontract =>
      rw [all_cons, Bool.and_eq_true] at hdone
      have hendedRest := hrest.ended_of_done hcontract hdone.2
      -- the end of the stream is behind the last data of the filter
      have hstream : streamRest = fn stream := by
        rw [← ((hfilter.inOut houtput).produced _ _ _ _ _ hfed hdone.1).1]
        cases hlink with
        | unseen | seen => cases hendedRest
        | closed => rfl
      obtain ⟨hproduced, hobserved⟩ := ih hcontract hdone.2 hendedRest
      rw [hstream] at hproduced hobserved
      refine ⟨hproduced, fun filterIdx filter hidx hobserver => ?_⟩
      cases filterIdx with
      | zero =>
        rw [← Option.some.inj hidx] at hobserver
        cases hobserver.symm.trans houtput
      | succ filterIdx => exact hobserved filterIdx filter hidx hobserver

/-! ## The loop of a call -/

theorem setOutput_self {output : FilterBuffer}
    (h : ∀ data ∈ list.getLast?, data.output = some output) : setOutput output list = list := by
  induction list with
  | nil => rfl
  | cons data rest ih =>
    by_cases hrest : rest = []
    · subst hrest
      show [{ data with output := some output }] = [data]
      rw [← h data rfl]
    · rw [getLast?_cons_of_ne_nil hrest] at h
      rw [setOutput_cons _ _ hrest, ih h]

/-- **The filters in the loop of a call**, which has appended this data to its
output buffer so far. -/
structure LoopFed (filters : List IoFilter) (stream : Bytes) (ended : Bool) (produced : Bytes)
    (input : Option Bytes) (output : FilterBuffer) (list : List IoFilterData) (data : Bytes)
    (pending : Option (Option Bytes)) : Prop where
  fed : ChainFed filters list stream ended pending (produced ++ data)
  delivered : getOutput output list = output.cat data
  last : LastNull output list
  input : ∀ same, pending = some same → input = same

section Loop

variable {input : Option Bytes} {output : FilterBuffer} {data : Bytes}

section

variable (h : LoopFed filters stream ended produced input output list data pending)
  (hcontract : ChainContract filters fns) (hsame : anySame list = true)
include h hcontract hsame

/-- As long as a filter needs the same input the last one has its buffer. -/
theorem LoopFed.last_output : ∀ last ∈ list.getLast?, last.output = some (output.cat data) := by
  intro last hlast
  have hdelivered := h.delivered
  unfold getOutput at hdelivered
  rw [hlast] at hdelivered
  change last.output.getD output = output.cat data at hdelivered
  cases houtput : last.output with
  | some buffer =>
    rw [houtput] at hdelivered
    exact congrArg some hdelivered
  | none =>
    have hdone : ∀ data ∈ list.getLast?, ioFilterDone data.filter = true := by
      intro data hdata
      rw [hlast] at hdata
      rw [← Option.some.inj hdata]
      exact (h.last last hlast houtput).1
    have hnone := h.fed.same_of_done hcontract (h.fed.done_of_last hcontract hdone).2
    cases hsame.symm.trans hnone

/-- **A turn of the loop with the same input.** -/
theorem LoopFed.turn (hspace : (getOutput output list).isFull = false) :
    ∃ pass data' pending', filterResume input list = some (.ok pass) ∧
      LoopFed filters stream ended produced input output pass.filterList (data ++ data') pending' ∧
      ResumeStep (pending', pass.filterList) (pending, list) ∧
      (input = none → FlushStep pass.filterList list) := by
  have hlast := h.last_output hcontract hsame
  have hset := setOutput_self hlast
  have hremains : 0 < (output.cat data).remains := by
    rw [← h.delivered]
    exact Nat.pos_of_ne_zero (of_decide_eq_false hspace)
  obtain ⟨pass, data', hpass, hresumed⟩ := h.fed.resume hcontract hsame h.input hremains
  have hturn := hpass
  rw [hset] at hturn
  refine ⟨pass, data', _, hturn, ?_, ⟨input, _, pass, h.input, hremains, hpass, rfl⟩, ?_⟩
  · refine ⟨?_, ?_, fun last hlast hnone => ?_, fun same heq => ?_⟩
    · rw [← append_assoc]
      exact hresumed.fed
    · have hdelivered := hresumed.delivered
      have hcat : (output.cat data).cat data' = output.cat (data ++ data') := by
        unfold FilterBuffer.cat
        rw [append_assoc]
      rw [← hcat, ← hdelivered]
      unfold getOutput
      cases hlist : pass.filterList.getLast? with
      | none => exact absurd (getLast?_eq_none_iff.mp hlist) hresumed.fed.ne_nil
      | some last =>
        dsimp only
        cases hout : last.output with
        | some buffer => rfl
        | none =>
          have hnil := (hresumed.last last hlist hout).2
          show output = { output with data := output.data ++ data }
          rw [(append_eq_nil_iff.mp hnil).2, append_nil]
    · obtain ⟨hdone, hnil⟩ := hresumed.last last hlast hnone
      exact ⟨hdone, (append_eq_nil_iff.mp hnil).1⟩
    · exact h.input same (pending_unused heq)
  · rintro rfl
    refine ⟨?_, _, pass, hremains, filterTurn_same hpass, rfl⟩
    rw [← Bool.not_eq_true]
    intro hdone
    cases hsame.symm.trans (h.fed.same_of_done hcontract hdone)

end

/-- The filters of a turn: from the one that needs the same input, or all. -/
def loopTurn (input : Option Bytes) (inputSame : Bool) (list : List IoFilterData) :
    Option (Except Error FilterPass) :=
  if inputSame then
    (filterResume input list).map (fun next => next.map fun pass => { pass with inputSame := true })
  else some (filterPass input list)

variable {pass : FilterPass}

theorem filterLoop_turn {inputSame : Bool}
    (hturn : loopTurn input inputSame list = some (.ok pass)) (fuel : ℕ) :
    filterLoop input output (fuel + 1) inputSame list =
      if !(getOutput output pass.filterList).isFull && pass.inputSame then
        filterLoop input output fuel true pass.filterList
      else some (.ok pass.filterList) := by
  unfold loopTurn at hturn
  conv_lhs => unfold filterLoop
  rw [hturn]

theorem loopTurn_same (hpass : filterResume input list = some (.ok pass)) :
    loopTurn input true list = some (.ok { pass with inputSame := true }) := by
  unfold loopTurn
  rw [hpass]
  rfl

theorem filterLoop_same (hpass : filterResume input list = some (.ok pass))
    (fuel : ℕ) :
    filterLoop input output (fuel + 1) true list =
      if !(getOutput output pass.filterList).isFull then
        filterLoop input output fuel true pass.filterList
      else some (.ok pass.filterList) := by
  rw [filterLoop_turn (loopTurn_same hpass)]
  rw [Bool.and_true]

theorem filterLoop_end (hsame : anySame list = false) (fuel : ℕ) :
    filterLoop input output (fuel + 1) true list = some (.ok list) := by
  unfold filterLoop
  rw [filterResume_none hsame]
  rfl

/-- **The loop goes on with the same input** and comes to an end. -/
theorem LoopFed.loop (h : LoopFed filters stream ended produced input output list data pending)
    (hcontract : ChainContract filters fns)
    (hspace : (getOutput output list).isFull = false) :
    ∃ limit list' data' pending',
      (∀ fuel ≥ limit, filterLoop input output fuel true list = some (.ok list')) ∧
      LoopFed filters stream ended produced input output list' data' pending' ∧
      ReflTransGen ResumeStep (pending', list') (pending, list) ∧
      (input = none → ReflTransGen FlushStep list' list) := by
  have hacc := h.fed.resume_ends hcontract
  generalize hstate : (pending, list) = state at hacc
  induction hacc generalizing pending list data with
  | intro state _ ih =>
    subst hstate
    cases hsame : anySame list with
    | false =>
      refine ⟨1, list, data, pending, fun fuel hfuel => ?_, h, .refl, fun _ => .refl⟩
      obtain ⟨fuel, rfl⟩ := Nat.exists_eq_add_of_le' hfuel
      exact filterLoop_end hsame fuel
    | true =>
      obtain ⟨pass, data', pending', hpass, hturn, hresume, hflush⟩ :=
        h.turn hcontract hsame hspace
      cases hfull : (getOutput output pass.filterList).isFull with
      | true =>
        refine ⟨1, pass.filterList, _, pending', fun fuel hfuel => ?_, hturn, .single hresume,
          fun hinput => .single (hflush hinput)⟩
        obtain ⟨fuel, rfl⟩ := Nat.exists_eq_add_of_le' hfuel
        rw [filterLoop_same hpass, hfull]
        rfl
      | false =>
        obtain ⟨limit, list', data'', pending'', hloop, hfed, hresume', hflush'⟩ :=
          ih _ hresume hturn hfull rfl
        refine ⟨limit + 1, list', data'', pending'', fun fuel hfuel => ?_, hfed,
          hresume'.trans (.single hresume),
          fun hinput => (hflush' hinput).trans (.single (hflush hinput))⟩
        obtain ⟨fuel, rfl⟩ := Nat.exists_eq_add_of_le' hfuel
        rw [← Nat.add_assoc, filterLoop_same hpass, hfull]
        exact hloop _ (Nat.le_add_left limit fuel)

/-- **The loop after its first turn.** -/
theorem LoopFed.loop_turn
    (h : LoopFed filters stream ended produced input output pass.filterList data pending)
    (hcontract : ChainContract filters fns) {inputSame : Bool}
    (hturn : loopTurn input inputSame list = some (.ok pass)) :
    ∃ limit list' data' pending',
      (∀ fuel ≥ limit, filterLoop input output fuel inputSame list = some (.ok list')) ∧
      LoopFed filters stream ended produced input output list' data' pending' ∧
      ReflTransGen ResumeStep (pending', list') (pending, pass.filterList) ∧
      (input = none → ReflTransGen FlushStep list' pass.filterList) := by
  cases hgo : !(getOutput output pass.filterList).isFull && pass.inputSame with
  | true =>
    rw [Bool.and_eq_true, Bool.not_eq_true'] at hgo
    obtain ⟨limit, list', data', pending', hloop, hfed, hresume, hflush⟩ :=
      h.loop hcontract hgo.1
    refine ⟨limit + 1, list', data', pending', fun fuel hfuel => ?_, hfed, hresume, hflush⟩
    obtain ⟨fuel, rfl⟩ := Nat.exists_eq_add_of_le' hfuel
    rw [← Nat.add_assoc, filterLoop_turn hturn, hgo.1, hgo.2]
    exact hloop _ (Nat.le_add_left limit fuel)
  | false =>
    refine ⟨1, pass.filterList, data, pending, fun fuel hfuel => ?_, h, .refl, fun _ => .refl⟩
    obtain ⟨fuel, rfl⟩ := Nat.exists_eq_add_of_le' hfuel
    rw [filterLoop_turn hturn, hgo]
    rfl

end Loop

/-! ## Calls -/

/-- **A group that was fed**, and the input that it is passed again if it needs
the same. -/
structure GroupFed (filters : List IoFilter) (this : IoFilterGroup) (stream : Bytes) (ended : Bool)
    (pending : Option (Option Bytes)) (produced : Bytes) (input : Option Bytes) : Prop where
  fed : ChainFed filters this.filterList stream ended pending produced
  inputSame : this.inputSame = anySame this.filterList
  done : this.done = allDone this.filterList
  input : ∀ same, pending = some same → input = same

section Call

variable {this : IoFilterGroup} {input : Option Bytes} {output : FilterBuffer}

/-- **A call whose first turn feeds the chain.** -/
theorem ioFilterGroupProcess_turn (hcontract : ChainContract filters fns) {pass : FilterPass}
    {data : Bytes}
    (hturn : loopTurn input this.inputSame (setOutput output this.filterList) = some (.ok pass))
    (h : LoopFed filters stream ended produced input output pass.filterList data pending) :
    ∃ limit this' data' pending',
      (∀ fuel ≥ limit, ioFilterGroupProcess fuel this input output =
        some (.ok (this', output.cat data'))) ∧
      GroupFed filters this' stream ended pending' (produced ++ data') input ∧
      ReflTransGen ResumeStep (pending', this'.filterList) (pending, pass.filterList) ∧
      (input = none → ReflTransGen FlushStep this'.filterList pass.filterList) := by
  obtain ⟨limit, list', data', pending', hloop, hfed, hresume, hflush⟩ :=
    h.loop_turn hcontract hturn
  refine ⟨limit, { filterList := list', inputSame := anySame list'
                   done := !anySame list' && allDone list' }, data', pending',
    fun fuel hfuel => ?_, ⟨hfed.fed, rfl, ?_, hfed.input⟩, hresume, hflush⟩
  · unfold ioFilterGroupProcess
    rw [hloop fuel hfuel, ← hfed.delivered]
    rfl
  · show (!anySame list' && allDone list') = allDone list'
    cases hdone : allDone list' with
    | true =>
      rw [hfed.fed.same_of_done hcontract hdone]
      rfl
    | false => rw [Bool.and_false]

section

variable (h : GroupFed filters this stream ended pending produced input)
  (hcontract : ChainContract filters fns)
include h hcontract

theorem GroupFed.call_same (hsame : this.inputSame = true) (hremains : 0 < output.remains) :
    ∃ limit this' data pending',
      (∀ fuel ≥ limit, ioFilterGroupProcess fuel this input output =
        some (.ok (this', output.cat data))) ∧
      GroupFed filters this' stream ended pending' (produced ++ data) input ∧
      TransGen ResumeStep (pending', this'.filterList) (pending, this.filterList) ∧
      (input = none → TransGen FlushStep this'.filterList this.filterList) := by
  obtain ⟨pass, data, hpass, hresumed⟩ :=
    h.fed.resume hcontract (h.inputSame.symm.trans hsame) h.input hremains
  have hturn : loopTurn input this.inputSame (setOutput output this.filterList) =
      some (.ok { pass with inputSame := true }) := by
    rw [hsame]
    exact loopTurn_same hpass
  have hloop : LoopFed filters stream ended produced input output pass.filterList data
      (if pass.inputUsed then none else pending) :=
    ⟨hresumed.fed, hresumed.delivered, hresumed.last,
      fun same heq => h.input same (pending_unused heq)⟩
  obtain ⟨limit, this', data', pending', hcall, hgroup, hresume, hflush⟩ :=
    ioFilterGroupProcess_turn hcontract hturn hloop
  refine ⟨limit, this', data', pending', hcall, hgroup,
    .tail' hresume ⟨input, output, pass, h.input, hremains, hpass, rfl⟩, ?_⟩
  rintro rfl
  refine .tail' (hflush rfl) ⟨?_, output, pass, hremains, filterTurn_same hpass, rfl⟩
  rw [← Bool.not_eq_true]
  intro hdone
  have hnone := h.inputSame.symm.trans hsame
  cases hnone.symm.trans (h.fed.same_of_done hcontract hdone)

theorem GroupFed.call_new (hsame : this.inputSame = false) {new : Option Bytes}
    (hallowed : InputAllowed ended none new) (hremains : 0 < output.remains) :
    ∃ limit this' data pending',
      (∀ fuel ≥ limit, ioFilterGroupProcess fuel this new output =
        some (.ok (this', output.cat data))) ∧
      GroupFed filters this' (feed stream none new) new.isNone pending' (produced ++ data) new ∧
      (new = none → allDone this.filterList = false →
        TransGen FlushStep this'.filterList this.filterList) := by
  have hnotSame := h.inputSame.symm.trans hsame
  obtain ⟨rfl, pass, data, pending', hpass, hpassed⟩ :=
    h.fed.pass_new hcontract hnotSame hallowed hremains
  have hturn : loopTurn new this.inputSame (setOutput output this.filterList) =
      some (.ok pass) := by
    rw [hsame]
    exact congrArg some hpass
  have hloop : LoopFed filters (feed stream none new) new.isNone produced new output
      pass.filterList data pending' :=
    ⟨hpassed.fed, hpassed.delivered, hpassed.last, fun same heq => hpassed.same heq⟩
  obtain ⟨limit, this', data', pending'', hcall, hgroup, -, hflush⟩ :=
    ioFilterGroupProcess_turn hcontract hturn hloop
  refine ⟨limit, this', data', pending'', hcall, hgroup, fun hinput hdone => ?_⟩
  refine .tail' (hflush hinput) ⟨hdone, output, pass, hremains, ?_, rfl⟩
  rw [filterTurn_pass (by rw [anySame_setOutput]; exact hnotSame), ← hinput]
  exact hpass

end

end Call

/-! ## Streams -/

/-- **The calls for a stream** until the group is done, with what they append
to the output buffers and the group then. -/
inductive Delivered (outputs : ℕ → FilterBuffer) :
    ℕ → Option Bytes → List Bytes → IoFilterGroup → Bytes → IoFilterGroup → Prop
  | done {call : ℕ} {input : Option Bytes} {chunks : List Bytes} {this : IoFilterGroup}
      (hdone : this.done = true) : Delivered outputs call input chunks this [] this
  | call {call limit : ℕ} {input next : Option Bytes} {chunks rest : List Bytes}
      {this this' final : IoFilterGroup} {data dataRest : Bytes} (hdone : this.done = false)
      (hnext : (if this.inputSame then (input, chunks) else (chunks.head?, chunks.tail)) =
        (next, rest))
      (hcall : ∀ fuel ≥ limit, ioFilterGroupProcess fuel this next (outputs call) =
        some (.ok (this', (outputs call).cat data)))
      (hrest : Delivered outputs (call + 1) next rest this' dataRest final) :
      Delivered outputs call input chunks this (data ++ dataRest) final

section Stream

variable {outputs : ℕ → FilterBuffer} {this : IoFilterGroup} {input : Option Bytes}

variable {chunks : List Bytes}

theorem Delivered.processStream {call : ℕ} {data : Bytes}
    {final : IoFilterGroup} (h : Delivered outputs call input chunks this data final) :
    ∃ limit₀ fuel₀, ∀ limit ≥ limit₀, ∀ fuel ≥ fuel₀,
      PgxBackup.processStream limit outputs fuel call input chunks this =
        some (.ok (data, final)) := by
  induction h with
  | done hdone =>
    refine ⟨0, 1, fun limit _ fuel hfuel => ?_⟩
    obtain ⟨fuel, rfl⟩ := Nat.exists_eq_add_of_le' hfuel
    unfold PgxBackup.processStream
    rw [if_pos hdone]
  | @call call limit₁ input next chunks rest this this' final data dataRest hdone hnext hcall hrest
      ih =>
    obtain ⟨limit₂, fuel₀, hprocess⟩ := ih
    refine ⟨max limit₁ limit₂, fuel₀ + 1, fun limit hlimit fuel hfuel => ?_⟩
    obtain ⟨fuel, rfl⟩ := Nat.exists_eq_add_of_le' hfuel
    rw [← Nat.add_assoc]
    unfold PgxBackup.processStream
    rw [if_neg (by rw [hdone]; exact Bool.false_ne_true), hnext]
    dsimp only
    rw [hcall limit ((le_max_left _ _).trans hlimit)]
    dsimp only
    rw [hprocess limit ((le_max_right _ _).trans hlimit) _ (Nat.le_add_left fuel₀ fuel)]
    show some (Except.ok (((outputs call).data ++ data).drop (outputs call).data.length ++ dataRest,
      final)) = _
    rw [drop_left]

/-- **The calls for a stream bring the group to its end**: by then it was fed
this stream. -/
def StreamEnds (filters : List IoFilter) (outputs : ℕ → FilterBuffer) (call : ℕ)
    (input : Option Bytes) (chunks : List Bytes) (this : IoFilterGroup) (stream produced : Bytes) :
    Prop :=
  ∃ data final ended pending, Delivered outputs call input chunks this data final ∧
    GroupFed filters final stream ended pending (produced ++ data) none ∧ final.done = true

theorem StreamEnds.call {call limit : ℕ} {next : Option Bytes} {chunks rest : List Bytes}
    {this' : IoFilterGroup} {data : Bytes} (hdone : this.done = false)
    (hnext : (if this.inputSame then (input, chunks) else (chunks.head?, chunks.tail)) =
      (next, rest))
    (hcall : ∀ fuel ≥ limit, ioFilterGroupProcess fuel this next (outputs call) =
      some (.ok (this', (outputs call).cat data)))
    (h : StreamEnds filters outputs (call + 1) next rest this' stream (produced ++ data)) :
    StreamEnds filters outputs call input chunks this stream produced := by
  obtain ⟨dataRest, final, ended, pending, hrest, hfinal, hend⟩ := h
  refine ⟨data ++ dataRest, final, ended, pending, .call hdone hnext hcall hrest, ?_, hend⟩
  rw [← append_assoc]
  exact hfinal

/-- A group that is not done before it was flushed. -/
theorem GroupFed.not_done (h : GroupFed filters this stream false pending produced input)
    (hcontract : ChainContract filters fns) : this.done = false := by
  rw [h.done, ← Bool.not_eq_true]
  intro hdone
  cases h.fed.ended_of_done hcontract hdone

section

variable (hcontract : ChainContract filters fns)
include hcontract

/-- **A group that was fed the whole stream is flushed.** -/
theorem GroupFed.flush_ends (houtputs : ∀ call, 0 < (outputs call).remains) (call : ℕ)
    (h : GroupFed filters this stream ended pending produced input)
    (hinput : this.inputSame = true → input = none) :
    StreamEnds filters outputs call input [] this stream produced := by
  have hpending : OnlyNull pending := by
    intro same heq
    cases hsame : this.inputSame with
    | true => rw [← hinput hsame, h.input same heq]
    | false =>
      have hnone := h.fed.pending_none hcontract
        (not_anySame (h.inputSame.symm.trans hsame))
      cases hnone.symm.trans heq
  have hacc := (h.fed.flush_ends hcontract hpending).transGen
  generalize hlist : this.filterList = list at hacc
  induction hacc generalizing this ended pending produced input call with
  | intro list _ ih =>
    subst hlist
    cases hdone : this.done with
    | true =>
      refine ⟨[], this, ended, pending, .done hdone, ?_, hdone⟩
      rw [append_nil]
      exact ⟨h.fed, h.inputSame, h.done, fun same heq => (hpending same heq).symm⟩
    | false =>
      cases hsame : this.inputSame with
      | true =>
        obtain rfl := hinput hsame
        obtain ⟨limit, this', data, pending', hcall, hgroup, -, hflush⟩ :=
          h.call_same hcontract hsame (houtputs call)
        exact .call hdone (if_pos hsame) hcall (ih this'.filterList (hflush rfl) (call + 1) hgroup
          (fun _ => rfl) (fun same heq => (hgroup.input same heq).symm) rfl)
      | false =>
        obtain ⟨limit, this', data, pending', hcall, hgroup, hflush⟩ :=
          h.call_new hcontract hsame (.null ended) (houtputs call)
        rw [feed_none] at hgroup
        have hstep := hflush rfl (h.done.symm.trans hdone)
        refine .call hdone (if_neg (by rw [hsame]; exact Bool.false_ne_true)) hcall
          (ih this'.filterList hstep (call + 1) hgroup (fun _ => rfl)
            (fun same heq => (hgroup.input same heq).symm) rfl)

theorem GroupFed.same_ends (houtputs : ∀ call, 0 < (outputs call).remains) {streamAll : Bytes}
    (hnew : ∀ (call : ℕ) (this : IoFilterGroup) (pending : Option (Option Bytes))
      (produced : Bytes), GroupFed filters this stream false pending produced input →
        this.inputSame = false →
          StreamEnds filters outputs call input chunks this streamAll produced) (call : ℕ)
    (h : GroupFed filters this stream false pending produced input) :
    StreamEnds filters outputs call input chunks this streamAll produced := by
  have hacc := (h.fed.resume_ends hcontract).transGen
  generalize hstate : (pending, this.filterList) = state at hacc
  induction hacc generalizing this pending produced call with
  | intro state _ ih =>
    subst hstate
    cases hsame : this.inputSame with
    | false => exact hnew call this pending produced h hsame
    | true =>
      obtain ⟨limit, this', data, pending', hcall, hgroup, hresume, -⟩ :=
        h.call_same hcontract hsame (houtputs call)
      exact .call (h.not_done hcontract) (if_pos hsame) hcall (ih _ hresume (call + 1) hgroup rfl)

/-- **The stream is fed and then flushed.** The induction is on the chunks. -/
theorem GroupFed.stream_ends (houtputs : ∀ call, 0 < (outputs call).remains)
    (hchunks : ∀ chunk ∈ chunks, chunk ≠ []) (call : ℕ)
    (h : GroupFed filters this stream false pending produced input) :
    StreamEnds filters outputs call input chunks this (stream ++ chunks.flatten) produced := by
  induction chunks generalizing this stream pending produced input call with
  | nil =>
    rw [flatten_nil, append_nil]
    refine h.same_ends hcontract houtputs (fun call this pending produced h hsame => ?_) call
    exact h.flush_ends hcontract houtputs call fun heq => absurd (heq.symm.trans hsame) nofun
  | cons chunk chunks ih =>
    refine h.same_ends hcontract houtputs (fun call this pending produced h hsame => ?_) call
    obtain ⟨limit, this', data, pending', hcall, hgroup, -⟩ :=
      h.call_new hcontract hsame (.data (hchunks chunk mem_cons_self)) (houtputs call)
    have hrest := ih (fun chunk hmem => hchunks chunk (mem_cons_of_mem _ hmem)) (call + 1)
      hgroup
    rw [flatten_cons, ← append_assoc]
    exact .call (h.not_done hcontract) (if_neg (by rw [hsame]; exact Bool.false_ne_true)) hcall
      hrest

end

end Stream

/-! ## A group that is opened -/

theorem ioFilterGroupBuffers_filter (bufferSize : ℕ) (filters : List IoFilter) :
    (ioFilterGroupBuffers bufferSize filters).map IoFilterData.filter = filters := by
  match filters with
  | [] => rfl
  | [filter] => rfl
  | filter :: next :: rest =>
    show filter :: (ioFilterGroupBuffers bufferSize (next :: rest)).map IoFilterData.filter = _
    rw [ioFilterGroupBuffers_filter bufferSize (next :: rest)]

/-- Nothing was fed to a chain when it is opened. -/
theorem ioFilterGroupBuffers_fed {bufferSize : ℕ} (hsize : 0 < bufferSize)
    (hcontract : ChainContract filters fns)
    (hlast : ∃ filter ∈ filters.getLast?, ioFilterOutput filter = true) :
    ChainFed filters (ioFilterGroupBuffers bufferSize filters) [] false none [] := by
  induction filters generalizing fns with
  | nil =>
    obtain ⟨filter, hfilter, -⟩ := hlast
    cases hfilter
  | cons filter rest ih =>
    cases hcontract with
    | cons hfilter hcontract =>
      match rest with
      | [] =>
        obtain ⟨last, hmem, houtput⟩ := hlast
        cases hmem
        exact .last houtput .new none
      | next :: rest =>
        have hrest := ih hcontract hlast
        show ChainFed _ ({ filter := filter
                           output := if ioFilterOutput filter then
                             some { size := bufferSize, data := [] } else none } :: _) _ _ _ _
        cases houtput : ioFilterOutput filter with
        | true =>
          exact .inOut houtput .new
            (.unseen { size := bufferSize, data := [] } hsize (.inr hsize) rfl) hrest
        | false =>
          have hchain : ChainFed _ ({ filter := filter.observed [] false, output := none } :: _) _ _ _
              _ := .observer houtput hrest
          rwa [hfilter.observed_nil houtput] at hchain

theorem ioFilterGroupFilters_contract (hcontract : ChainContract filters fns) :
    ∃ more, ChainContract (ioFilterGroupFilters filters) (fns ++ more) ∧
      (∀ fn ∈ more, fn = id) ∧ (∃ moreFilters, ioFilterGroupFilters filters = filters ++ moreFilters) ∧
      ∃ filter ∈ (ioFilterGroupFilters filters).getLast?, ioFilterOutput filter = true := by
  unfold ioFilterGroupFilters
  split
  · refine ⟨[id], rel_append hcontract (.cons ?_ .nil), ?_, ⟨_, rfl⟩, ioBufferNew, ?_, rfl⟩
    · exact ioBufferNew_contract.contract
    · rintro fn hfn
      exact mem_singleton.mp hfn
    · rw [getLast?_concat]
      rfl
  · rename_i hlast
    cases hfilter : filters.getLast? with
    | none =>
      rw [hfilter] at hlast
      exact absurd rfl hlast
    | some filter =>
      rw [hfilter] at hlast
      refine ⟨[], ?_, nofun, ⟨[], (append_nil _).symm⟩, filter, rfl, ?_⟩
      · rwa [append_nil]
      · simpa using hlast

theorem ioFilterGroupOpen_fed {bufferSize : ℕ} (hsize : 0 < bufferSize)
    (hcontract : ChainContract (ioFilterGroupFilters filters) fns)
    (hlast : ∃ filter ∈ (ioFilterGroupFilters filters).getLast?, ioFilterOutput filter = true) :
    GroupFed (ioFilterGroupFilters filters) (ioFilterGroupOpen bufferSize filters) [] false none []
      none := by
  have hfed := ioFilterGroupBuffers_fed hsize hcontract hlast
  refine ⟨hfed, ?_, ?_, nofun⟩
  · have hfilters := ioFilterGroupBuffers_filter bufferSize (ioFilterGroupFilters filters)
    show false = anySame (ioFilterGroupBuffers bufferSize (ioFilterGroupFilters filters))
    symm
    unfold anySame
    rw [any_eq_false]
    intro data hdata
    rw [hcontract.inputSame (hfilters ▸ mem_map_of_mem hdata)]
    exact Bool.false_ne_true
  · show false = allDone (ioFilterGroupBuffers bufferSize (ioFilterGroupFilters filters))
    symm
    rw [← Bool.not_eq_true]
    intro hdone
    cases hfed.ended_of_done hcontract hdone

theorem compose_append_id {more : List (Bytes → Bytes)} (hmore : ∀ fn ∈ more, fn = id)
    (stream : Bytes) : compose (fns ++ more) stream = compose fns stream := by
  unfold compose
  rw [foldl_append]
  induction more with
  | nil => rfl
  | cons fn more ih =>
    rw [foldl_cons, hmore fn mem_cons_self]
    exact ih fun fn hfn => hmore fn (mem_cons_of_mem _ hfn)

/-- **A filter group computes the composition of its filters.** For filters
that meet their contracts, all chunks of an input and all output buffers with
free space, the group is done after a number of calls. What they delivered is
the composition of the functions of the stream, and every filter that only
observes its input has seen what those before it make of the stream. -/
theorem ioFilterGroupProcess_composes {bufferSize : ℕ} (hsize : 0 < bufferSize)
    (hcontract : ChainContract filters fns) {outputs : ℕ → FilterBuffer}
    (houtputs : ∀ call, 0 < (outputs call).remains) {chunks : List Bytes}
    (hchunks : ∀ chunk ∈ chunks, chunk ≠ []) :
    ∃ limit₀ fuel₀ final,
      (∀ limit ≥ limit₀, ∀ fuel ≥ fuel₀,
        processStream limit outputs fuel 0 none chunks (ioFilterGroupOpen bufferSize filters) =
          some (.ok (compose fns chunks.flatten, final))) ∧
      final.done = true ∧
      ∀ (filterIdx : ℕ) (filter : IoFilter), filters[filterIdx]? = some filter →
        ioFilterOutput filter = false →
          ∃ observed, observed.flatten = compose (fns.take filterIdx) chunks.flatten ∧
            (final.filterList[filterIdx]?).map IoFilterData.filter =
              some (filter.observed observed true) := by
  obtain ⟨more, hcontract', hmore, ⟨moreFilters, hfilters⟩, hlast⟩ :=
    ioFilterGroupFilters_contract hcontract
  have hopen := ioFilterGroupOpen_fed hsize hcontract' hlast
  obtain ⟨data, final, ended, pending, hdelivered, hgroup, hend⟩ :=
    hopen.stream_ends hcontract' houtputs hchunks 0
  obtain ⟨hproduced, hobserved⟩ := hgroup.fed.done hcontract' (hgroup.done.symm.trans hend)
  rw [nil_append] at hproduced hobserved
  rw [nil_append, compose_append_id hmore] at hproduced
  obtain ⟨limit₀, fuel₀, hprocess⟩ := hdelivered.processStream
  rw [hproduced] at hprocess
  refine ⟨limit₀, fuel₀, final, hprocess, hend, fun filterIdx filter hidx hobserver => ?_⟩
  have hlt : filterIdx < filters.length := (List.getElem?_eq_some_iff.mp hidx).1
  have hidx' : (ioFilterGroupFilters filters)[filterIdx]? = some filter := by
    rw [hfilters, getElem?_append_left hlt]
    exact hidx
  have htake : (fns ++ more).take filterIdx = fns.take filterIdx := by
    rw [take_append_of_le_length]
    rw [← List.Forall₂.length_eq hcontract]
    exact hlt.le
  rw [← htake]
  exact hobserved filterIdx filter hidx' hobserver

/-- A size filter and a buffer filter with a buffer of one byte each. -/
theorem ioFilterGroupProcess_composes_sample :
    ∃ limit₀ fuel₀ final,
      (∀ limit ≥ limit₀, ∀ fuel ≥ fuel₀,
        processStream limit (fun _ => { size := 2, data := [] }) fuel 0 none [[1, 2, 3], [4]]
          (ioFilterGroupOpen 1 [ioBufferNew, ioSizeNew]) =
            some (.ok (compose [id, id] [[1, 2, 3], [4]].flatten, final))) ∧
      final.done = true ∧
      ∀ (filterIdx : ℕ) (filter : IoFilter),
        [ioBufferNew, ioSizeNew][filterIdx]? = some filter → ioFilterOutput filter = false →
          ∃ observed, observed.flatten = compose ([id, id].take filterIdx) [[1, 2, 3], [4]].flatten ∧
            (final.filterList[filterIdx]?).map IoFilterData.filter =
              some (filter.observed observed true) := by
  have houtputs (call : ℕ) : 0 < ((fun _ => { size := 2, data := [] } : ℕ → FilterBuffer)
      call).remains := Nat.two_pos
  exact ioFilterGroupProcess_composes Nat.one_pos
    (.cons ioBufferNew_contract.contract (.cons ioSizeNew_contract .nil)) houtputs (by decide)

end PgxBackup
