import Mathlib.Data.List.Nodup
import Mathlib.Data.List.Perm.Basic
import PgxBackup.Parallel

/-!
# Every job is run exactly once

The descriptors that `select` reports, the jobs that are done, the slots of
the clients and the results that the caller takes are four views of one
progress. The invariant says how they agree: a slot holds the job that is in
flight with its client, a job of the list is in a slot or done, and the number
of jobs that are done is the number of results that the caller still takes.
-/

namespace PgxBackup

open List

variable {C J R : Type} {callback : C → ℕ → Option J × C} {data : C}

namespace ProtocolParallel

/-- The addresses of the jobs that were returned. -/
def returnedList (s : ProtocolParallel C J R) : List ℕ :=
  s.returned.filterMap (Option.map Prod.fst)

/-- The number of jobs of the list that are done. -/
def doneTotal (s : ProtocolParallel C J R) : ℕ :=
  s.jobList.countP (fun address => (s.job address).state = .done)

/-- The calls of the callback and the clients that it has ended. -/
structure CallsOk (callback : C → ℕ → Option J × C) (data : C) (s : ProtocolParallel C J R) :
    Prop where
  callbackData : s.callbackData = parallelCallbackRun callback data (s.calls.map Prod.fst)
  freed : ∀ client, s.freed client = true → (client, none) ∈ s.calls ∧
    ∃ before between, s.calls.map Prod.fst = before ++ client :: between ∧
      (callback (parallelCallbackRun callback data before) client).1 = none
  sent : s.sent = s.produced
  total : s.jobTotal = s.produced.length

/-- The jobs: every job is returned or in the list, and a job of the list is
in the slot of its client or done. -/
structure JobsOk (s : ProtocolParallel C J R) : Prop where
  perm : (s.returnedList ++ s.jobList).Perm (range s.jobTotal)
  notNull : none ∉ s.returned
  slot : ∀ client address, s.clientJobList client = some address →
    client < s.clientTotal ∧ address ∈ s.jobList ∧
      ∃ param, s.produced[address]? = some (client, param) ∧
        s.job address = .running client param
  list : ∀ address ∈ s.jobList, ∃ client param, s.produced[address]? = some (client, param) ∧
    (s.clientJobList client = some address ∨
      ∃ response, (address, response) ∈ s.answered ∧
        s.job address = .done client param response)
  returned : ∀ address job, some (address, job) ∈ s.returned →
    ∃ client param response, s.produced[address]? = some (client, param) ∧
      (address, response) ∈ s.answered ∧ job = .done client param response

/-- The channels: what is in flight with a client is the job in its slot. -/
structure ChannelsOk (s : ProtocolParallel C J R) : Prop where
  idle : ∀ client, s.clientJobList client = none →
    s.requests client = [] ∧ s.responses client = []
  busy : ∀ client address, s.clientJobList client = some address →
    (s.requests client = [address] ∧ s.responses client = [] ∧
      address ∉ s.answered.map Prod.fst) ∨
    (s.requests client = [] ∧
      ∃ response, s.responses client = [(address, response)] ∧ (address, response) ∈ s.answered)
  nodup : (s.answered.map Prod.fst).Nodup
  lt : ∀ address ∈ s.answered.map Prod.fst, address < s.jobTotal

/-- The invariant of the executor. -/
structure Ok (callback : C → ℕ → Option J × C) (data : C) (s : ProtocolParallel C J R) :
    Prop where
  calls : CallsOk callback data s
  jobs : JobsOk s
  channels : ChannelsOk s

variable {s : ProtocolParallel C J R} {address client : ℕ} {response : ParallelResponse R} {param : J}

theorem JobsOk.jobList_nodup (h : s.JobsOk) : s.jobList.Nodup :=
  (nodup_append.mp (h.perm.nodup_iff.mpr nodup_range)).2.1

theorem JobsOk.lt_of_mem_jobList (h : s.JobsOk)
    (hmem : address ∈ s.jobList) : address < s.jobTotal :=
  mem_range.mp (h.perm.subset (mem_append_right _ hmem))

/-- A job is in one slot only, since it was produced for one client. -/
theorem JobsOk.slot_injective (h : s.JobsOk)
    {client' : ℕ} (hc : s.clientJobList client = some address)
    (hc' : s.clientJobList client' = some address) : client = client' := by
  obtain ⟨-, -, param, hparam, -⟩ := h.slot client address hc
  obtain ⟨-, -, param', hparam', -⟩ := h.slot client' address hc'
  rw [hparam] at hparam'
  simp only [Option.some.injEq, Prod.mk.injEq] at hparam'
  exact hparam'.1

/-! ### A worker answers -/

theorem answer_eq {s' : ProtocolParallel C J R}
    (h : s.answer client response = some s') :
    ∃ address requests, s.requests client = address :: requests ∧
      s' = { s with
        requests := Function.update s.requests client requests
        responses := Function.update s.responses client
          (s.responses client ++ [(address, response)])
        answered := s.answered ++ [(address, response)] } := by
  unfold answer at h
  split at h
  next address requests hrequests =>
    exact ⟨address, requests, hrequests, (Option.some.inj h).symm⟩
  next => cases h

/-- **An answer keeps the invariant.** A worker has a request only for the job
in the slot of its client, which has not been answered. -/
theorem Ok.answer {s' : ProtocolParallel C J R} (hs : Ok callback data s)
    (h : s.answer client response = some s') :
    Ok callback data s' := by
  obtain ⟨address, requests, hrequests, rfl⟩ := answer_eq h
  have hslot : s.clientJobList client = some address ∧ requests = [] ∧
      s.responses client = [] ∧ address ∉ s.answered.map Prod.fst := by
    cases hc : s.clientJobList client with
    | none => rw [(hs.channels.idle client hc).1] at hrequests; cases hrequests
    | some address' =>
      rcases hs.channels.busy client address' hc with ⟨hreq, hres, hnot⟩ | ⟨hreq, -⟩
      · rw [hrequests, cons.injEq] at hreq
        obtain ⟨rfl, rfl⟩ := hreq
        exact ⟨rfl, rfl, hres, hnot⟩
      · rw [hreq] at hrequests; cases hrequests
  obtain ⟨hslot, rfl, hres, hnot⟩ := hslot
  refine ⟨⟨hs.calls.callbackData, hs.calls.freed, hs.calls.sent, hs.calls.total⟩,
    ⟨hs.jobs.perm, hs.jobs.notNull, hs.jobs.slot, ?_, ?_⟩, ⟨?_, ?_, ?_, ?_⟩⟩
  · intro address' hmem
    obtain ⟨client', param, hparam, hlist⟩ := hs.jobs.list address' hmem
    refine ⟨client', param, hparam, hlist.imp_right ?_⟩
    rintro ⟨response', hanswered, hjob⟩
    exact ⟨response', mem_append_left _ hanswered, hjob⟩
  · intro address' job hmem
    obtain ⟨client', param, response', hparam, hanswered, hjob⟩ := hs.jobs.returned address' job hmem
    exact ⟨client', param, response', hparam, mem_append_left _ hanswered, hjob⟩
  · intro client' hclient'
    have hne : client' ≠ client := fun heq => by rw [heq, hslot] at hclient'; cases hclient'
    simpa [Function.update_of_ne hne] using hs.channels.idle client' hclient'
  · intro client' address' hclient'
    by_cases hne : client' = client
    · subst hne
      rw [hslot, Option.some.injEq] at hclient'
      subst hclient'
      right
      simp [hres]
    · have hne' : address' ≠ address :=
        fun heq => hne (hs.jobs.slot_injective hclient' (heq ▸ hslot))
      simp only [Function.update_of_ne hne, map_append, map_cons, map_nil,
        mem_append, mem_singleton, hne', or_false]
      rcases hs.channels.busy client' address' hclient' with h | ⟨hreq, response', hr, hanswered⟩
      · exact Or.inl h
      · exact Or.inr ⟨hreq, response', hr, Or.inl hanswered⟩
  · rw [map_append]
    exact nodup_append.mpr ⟨hs.channels.nodup, by simp,
      by rintro a ha b hb rfl; simp at hb; exact hnot (hb ▸ ha)⟩
  · intro address' hmem
    rw [map_append, mem_append] at hmem
    rcases hmem with hmem | hmem
    · exact hs.channels.lt address' hmem
    · obtain rfl : address' = address := by simpa using hmem
      exact hs.jobs.lt_of_mem_jobList (hs.jobs.slot client address' hslot).2.1

/-! ### A response is read -/

theorem countP_of_update {l : List ℕ} (hl : l.Nodup) {p q : ℕ → Bool} {a : ℕ} (ha : a ∈ l)
    (hp : p a = false) (hq : q a = true) (hpq : ∀ b, b ≠ a → q b = p b) :
    l.countP q = l.countP p + 1 := by
  have hperm := perm_cons_erase ha
  have hrest : (l.erase a).countP q = (l.erase a).countP p :=
    countP_congr (fun b hb => by rw [hpq b (fun h => hl.not_mem_erase (h ▸ hb))])
  rw [hperm.countP_eq q, hperm.countP_eq p, countP_cons_of_pos hq,
    countP_cons_of_neg (by simp [hp]), hrest]

theorem read_eq
    (hslot : s.clientJobList client = some address)
    (hjob : s.job address = .running client param)
    (hresponses : s.responses client = [(address, response)]) :
    s.read client = some { s with
      job := Function.update s.job address (.done client param response)
      clientJobList := Function.update s.clientJobList client none
      responses := Function.update s.responses client [] } := by
  cases response <;>
    simp [read, hslot, hresponses, hjob, ProtocolParallelJob.stateSet,
      ProtocolParallelJob.responseSet, ProtocolParallelJob.running, ProtocolParallelJob.new,
      ProtocolParallelJob.done]

/-- **Reading a response keeps the invariant** and makes one more job of the
list done. The slots of the other clients stay as they are. -/
theorem Ok.read (hs : Ok callback data s)
    (hslot : (s.clientJobList client).isSome) (hresponses : s.responses client ≠ []) :
    ∃ s', s.read client = some s' ∧ Ok callback data s' ∧ s'.doneTotal = s.doneTotal + 1 ∧
      s'.clientTotal = s.clientTotal ∧
      ∀ client', client' ≠ client → s'.clientJobList client' = s.clientJobList client' ∧
        s'.responses client' = s.responses client' := by
  obtain ⟨address, hslot⟩ := Option.isSome_iff_exists.mp hslot
  obtain ⟨hrequests, response, hresponse, hanswered⟩ :=
    (hs.channels.busy client address hslot).resolve_left (fun h => hresponses h.2.1)
  obtain ⟨-, hmem, param, hparam, hjob⟩ := hs.jobs.slot client address hslot
  refine ⟨_, read_eq hslot hjob hresponse,
    ⟨⟨hs.calls.callbackData, hs.calls.freed, hs.calls.sent, hs.calls.total⟩,
      ⟨hs.jobs.perm, hs.jobs.notNull, ?_, ?_, hs.jobs.returned⟩,
      ⟨?_, ?_, hs.channels.nodup, hs.channels.lt⟩⟩, ?_, rfl, ?_⟩
  · intro client' address' hclient'
    dsimp only at hclient' ⊢
    have hne : client' ≠ client := fun heq => by simp [heq] at hclient'
    rw [Function.update_of_ne hne] at hclient'
    have hne' : address' ≠ address :=
      fun heq => hne (hs.jobs.slot_injective hclient' (heq ▸ hslot))
    rw [Function.update_of_ne hne']
    exact hs.jobs.slot client' address' hclient'
  · intro address' hmem'
    dsimp only
    by_cases heq : address' = address
    · subst heq
      exact ⟨client, param, hparam, Or.inr ⟨response, hanswered, Function.update_self ..⟩⟩
    · obtain ⟨client', param', hparam', hlist⟩ := hs.jobs.list address' hmem'
      refine ⟨client', param', hparam', ?_⟩
      rw [Function.update_of_ne heq]
      refine hlist.imp_left (fun hclient' => ?_)
      rw [Function.update_of_ne ?_]
      · exact hclient'
      · rintro rfl
        exact heq (Option.some.inj (hclient'.symm.trans hslot))
  · intro client' hclient'
    dsimp only at hclient' ⊢
    by_cases hne : client' = client
    · subst hne
      exact ⟨hrequests, Function.update_self ..⟩
    · rw [Function.update_of_ne hne] at hclient' ⊢
      exact hs.channels.idle client' hclient'
  · intro client' address' hclient'
    dsimp only at hclient' ⊢
    have hne : client' ≠ client := fun heq => by simp [heq] at hclient'
    rw [Function.update_of_ne hne] at hclient' ⊢
    exact hs.channels.busy client' address' hclient'
  · refine countP_of_update hs.jobs.jobList_nodup hmem ?_ ?_ ?_
    · simp [hjob, ProtocolParallelJob.running]
    · simp [ProtocolParallelJob.done]
    · intro address' hne
      simp [Function.update_of_ne hne]
  · intro client' hne
    exact ⟨Function.update_of_ne hne .., Function.update_of_ne hne ..⟩

/-! ### A client is given its next job -/

theorem parallelCallbackRun_append (clients : List ℕ) (client : ℕ) :
    parallelCallbackRun callback data (clients ++ [client]) =
      (callback (parallelCallbackRun callback data clients) client).2 := by
  simp [parallelCallbackRun]

/-- A client that the callback still has a job for was not freed. -/
theorem CallsOk.not_freed (hs : s.CallsOk callback data)
    (hends : ParallelCallbackEnds callback data)
    (hjob : (callback s.callbackData client).1 = some param) : s.freed client = false := by
  cases hfreed : s.freed client with
  | false => rfl
  | true =>
    obtain ⟨-, before, between, hcalls, hnone⟩ := hs.freed client hfreed
    have := hends before between client hnone
    rw [← hcalls, ← hs.callbackData, hjob] at this
    cases this

theorem CallsOk.freed_append (hs : s.CallsOk callback data)
    (call : ℕ × Option J) (client : ℕ) (hfreed : s.freed client = true) :
    (client, none) ∈ s.calls ++ [call] ∧
      ∃ before between, (s.calls ++ [call]).map Prod.fst = before ++ client :: between ∧
        (callback (parallelCallbackRun callback data before) client).1 = none := by
  obtain ⟨hmem, before, between, hcalls, hnone⟩ := hs.freed client hfreed
  refine ⟨mem_append_left _ hmem, before, between ++ [call.1], ?_, hnone⟩
  simp [hcalls]

/-- The state after the callback has produced a job for a client. -/
def started (s : ProtocolParallel C J R) (callbackData : C) (client : ℕ) (param : J) :
    ProtocolParallel C J R :=
  { s with
    callbackData := callbackData
    calls := s.calls ++ [(client, some param)]
    jobTotal := s.jobTotal + 1
    jobList := s.jobList ++ [s.jobTotal]
    job := Function.update s.job s.jobTotal (.running client param)
    clientJobList := Function.update s.clientJobList client (some s.jobTotal)
    requests := Function.update s.requests client (s.requests client ++ [s.jobTotal])
    sent := s.sent ++ [(client, param)] }

/-- The state after the callback has returned `NULL` for a client. -/
def ended (s : ProtocolParallel C J R) (callbackData : C) (client : ℕ) : ProtocolParallel C J R :=
  { s with
    callbackData := callbackData
    calls := s.calls ++ [(client, none)]
    freed := Function.update s.freed client true }

section

variable (s : ProtocolParallel C J R) (callbackData : C) (client : ℕ)

@[simp] theorem produced_started (param : J) :
    (s.started callbackData client param).produced = s.produced ++ [(client, param)] := by
  simp [produced, started]

@[simp] theorem produced_ended : (s.ended callbackData client).produced = s.produced := by
  simp [produced, ended]

end

/-- What finding a new job for a client changes. -/
theorem dispatch_eq
    (hfreed : ∀ param, (callback s.callbackData client).1 = some param → s.freed client = false) :
    s.dispatch callback client =
      match s.clientJobList client, (callback s.callbackData client).1 with
      | some _, _ => some s
      | none, some param => some (s.started (callback s.callbackData client).2 client param)
      | none, none => some (s.ended (callback s.callbackData client).2 client) := by
  unfold dispatch
  split
  next address hslot => rw [hslot]
  next hslot =>
    rw [hslot]
    split
    next job callbackData hcallback =>
    rw [hcallback] at hfreed ⊢
    cases job with
    | none => rfl
    | some param =>
      simp [start, send, started, hfreed param rfl, ProtocolParallelJob.stateSet,
        ProtocolParallelJob.new, ProtocolParallelJob.running]

section

variable (hs : Ok callback data s)
include hs

/-- **A new job keeps the invariant**: its address is a new one, and nothing
was in flight with its client. -/
theorem Ok.start_job (hlt : client < s.clientTotal) (hslot : s.clientJobList client = none)
    (hjob : (callback s.callbackData client).1 = some param) :
    Ok callback data (s.started (callback s.callbackData client).2 client param) := by
  have hnew : ∀ (address : ℕ) x, s.produced[address]? = some x →
      (s.produced ++ [(client, param)])[address]? = some x := by
    intro address x hx
    rw [getElem?_append_left (List.getElem?_eq_some_iff.mp hx).1, hx]
  have hmem_lt : ∀ address ∈ s.jobList, address < s.jobTotal :=
    fun address => hs.jobs.lt_of_mem_jobList
  obtain ⟨hrequests, hresponses⟩ := hs.channels.idle client hslot
  refine ⟨⟨?_, hs.calls.freed_append _, ?_, ?_⟩, ⟨?_, hs.jobs.notNull, ?_, ?_, ?_⟩,
    ⟨?_, ?_, hs.channels.nodup, ?_⟩⟩
  · show _ = parallelCallbackRun callback data ((s.calls ++ [_]).map Prod.fst)
    rw [map_append, map_singleton, parallelCallbackRun_append, ← hs.calls.callbackData]
    rfl
  · show s.sent ++ _ = _
    rw [produced_started, hs.calls.sent]
  · show s.jobTotal + 1 = _
    rw [produced_started, length_append, hs.calls.total, length_singleton]
  · show (s.returnedList ++ (s.jobList ++ [s.jobTotal])).Perm (range (s.jobTotal + 1))
    rw [range_succ, ← append_assoc]
    exact hs.jobs.perm.append_right _
  · intro client' address' hclient'
    rw [produced_started]
    by_cases hne : client' = client
    · subst hne
      obtain rfl : s.jobTotal = address' := by simpa [started] using hclient'
      refine ⟨hlt, by simp [started], param, ?_, Function.update_self ..⟩
      simp [hs.calls.total]
    · have hclient' : s.clientJobList client' = some address' := by
        simpa [started, Function.update_of_ne hne] using hclient'
      obtain ⟨hlt', hmem', param', hparam', hjob'⟩ := hs.jobs.slot client' address' hclient'
      have hlt'' := hmem_lt address' hmem'
      refine ⟨hlt', mem_append_left _ hmem', param', hnew _ _ hparam', ?_⟩
      show Function.update s.job s.jobTotal _ address' = _
      rw [Function.update_of_ne (Nat.ne_of_lt hlt''), hjob']
  · intro address' hmem'
    rw [produced_started]
    rcases mem_append.mp (show address' ∈ s.jobList ++ [s.jobTotal] from hmem') with hmem' | hmem'
    · obtain ⟨client', param', hparam', hlist⟩ := hs.jobs.list address' hmem'
      refine ⟨client', param', hnew _ _ hparam', ?_⟩
      rcases hlist with hclient' | ⟨response, hanswered, hjob'⟩
      · left
        have hne : client' ≠ client := fun heq => by rw [heq, hslot] at hclient'; cases hclient'
        show Function.update s.clientJobList client _ client' = _
        rw [Function.update_of_ne hne, hclient']
      · right
        refine ⟨response, hanswered, ?_⟩
        show Function.update s.job s.jobTotal _ address' = _
        rw [Function.update_of_ne (Nat.ne_of_lt (hmem_lt address' hmem')), hjob']
    · obtain rfl : address' = s.jobTotal := by simpa using hmem'
      refine ⟨client, param, by simp [hs.calls.total], Or.inl (Function.update_self ..)⟩
  · intro address' job hmem'
    obtain ⟨client', param', response, hparam', hanswered, hjob'⟩ := hs.jobs.returned address' job hmem'
    rw [produced_started]
    exact ⟨client', param', response, hnew _ _ hparam', hanswered, hjob'⟩
  · intro client' hclient'
    have hne : client' ≠ client := fun heq => by simp [started, heq] at hclient'
    simp only [started, Function.update_of_ne hne] at hclient' ⊢
    exact hs.channels.idle client' hclient'
  · intro client' address' hclient'
    by_cases hne : client' = client
    · subst hne
      obtain rfl : s.jobTotal = address' := by simpa [started] using hclient'
      refine Or.inl ⟨by simp [started, hrequests], hresponses, fun hmem' => ?_⟩
      exact Nat.lt_irrefl _ (hs.channels.lt _ hmem')
    · simp only [started, Function.update_of_ne hne] at hclient' ⊢
      exact hs.channels.busy client' address' hclient'
  · intro address' hmem'
    exact Nat.lt_succ_of_lt (hs.channels.lt address' hmem')

/-- **The end of a client keeps the invariant.** -/
theorem Ok.end_client (hjob : (callback s.callbackData client).1 = none) :
    Ok callback data (s.ended (callback s.callbackData client).2 client) := by
  refine ⟨⟨?_, ?_, ?_, ?_⟩, ⟨hs.jobs.perm, hs.jobs.notNull, ?_, ?_, ?_⟩,
    ⟨hs.channels.idle, hs.channels.busy, hs.channels.nodup, hs.channels.lt⟩⟩
  · show _ = parallelCallbackRun callback data ((s.calls ++ [_]).map Prod.fst)
    rw [map_append, map_singleton, parallelCallbackRun_append, ← hs.calls.callbackData]
    rfl
  · intro client' hfreed
    by_cases hne : client' = client
    · subst hne
      refine ⟨mem_append_right _ (mem_singleton_self _), s.calls.map Prod.fst, [],
        by simp [ended], ?_⟩
      rw [← hs.calls.callbackData, hjob]
    · refine hs.calls.freed_append _ client' ?_
      simpa [ended, Function.update_of_ne hne] using hfreed
  · rw [produced_ended]
    exact hs.calls.sent
  · rw [produced_ended]
    exact hs.calls.total
  all_goals rw [produced_ended]
  · exact hs.jobs.slot
  · exact hs.jobs.list
  · exact hs.jobs.returned

/-- A new job is not done, so the number of jobs that are done stays. -/
theorem Ok.doneTotal_started (callbackData : C) (client : ℕ) (param : J) :
    (s.started callbackData client param).doneTotal = s.doneTotal := by
  show (s.jobList ++ [s.jobTotal]).countP
    (fun address => (Function.update s.job s.jobTotal (.running client param) address).state
      = .done) = s.doneTotal
  rw [countP_append, countP_singleton, Function.update_self]
  show _ + 0 = _
  rw [Nat.add_zero]
  refine countP_congr (fun address hmem => ?_)
  rw [Function.update_of_ne (Nat.ne_of_lt (hs.jobs.lt_of_mem_jobList hmem))]

/-- **Finding a new job for a client**: the client then has a job, or the
callback has returned `NULL` for it. -/
theorem Ok.dispatch (hends : ParallelCallbackEnds callback data) (hlt : client < s.clientTotal) :
    ∃ s', s.dispatch callback client = some s' ∧ Ok callback data s' ∧
      s'.doneTotal = s.doneTotal ∧ s'.clientTotal = s.clientTotal ∧
      (∀ client', client' ≠ client → s'.clientJobList client' = s.clientJobList client') ∧
      s.calls ⊆ s'.calls ∧ (s'.clientJobList client = none → (client, none) ∈ s'.calls) := by
  rw [dispatch_eq (fun param hjob => hs.calls.not_freed hends hjob)]
  cases hslot : s.clientJobList client with
  | some address =>
    refine ⟨s, rfl, hs, rfl, rfl, fun _ _ => rfl, fun _ => id, ?_⟩
    rw [hslot]
    nofun
  | none =>
    cases hjob : (callback s.callbackData client).1 with
    | some param =>
      refine ⟨_, rfl, hs.start_job hlt hslot hjob, hs.doneTotal_started .., rfl,
        fun client' hne => Function.update_of_ne hne .., subset_append_left .., ?_⟩
      simp [started]
    | none =>
      refine ⟨_, rfl, hs.end_client hjob, rfl, rfl, fun _ _ => rfl,
        subset_append_left .., fun _ => ?_⟩
      exact mem_append_right _ (mem_singleton_self _)

end

/-! ### One call of `protocolParallelProcess` -/

theorem mem_select :
    client ∈ s.select ↔ client < s.clientTotal ∧ (s.clientJobList client).isSome ∧
      s.responses client ≠ [] := by
  simp [select, and_comm]

theorem nodup_select (s : ProtocolParallel C J R) : s.select.Nodup :=
  (nodup_range.filter _).filter _

section

variable (hs : Ok callback data s)
include hs

/-- **Reading the responses**: as many jobs are done then as `select` has
reported descriptors. -/
theorem Ok.run_read (hdone : s.doneTotal = 0) :
    ∃ t, Steps.run ProtocolParallel.read s s.select = some t ∧ Ok callback data t ∧
      t.doneTotal = s.select.length ∧ t.clientTotal = s.clientTotal := by
  -- the clients that `select` has reported and that were not read still have a response
  have key : ∃ t, Steps.run ProtocolParallel.read s s.select = some t ∧
      Ok callback data t ∧ t.doneTotal = s.select.length ∧ t.clientTotal = s.clientTotal ∧
        ∀ client ∈ s.select, client ∉ s.select →
          (t.clientJobList client).isSome ∧ t.responses client ≠ [] := by
    refine Steps.run_of_progress (P := fun before t =>
      Ok callback data t ∧ t.doneTotal = before.length ∧ t.clientTotal = s.clientTotal ∧
        ∀ client ∈ s.select, client ∉ before →
          (t.clientJobList client).isSome ∧ t.responses client ≠ [])
      s.select ?_ ⟨hs, hdone, rfl, fun client hmem _ => (mem_select.mp hmem).2⟩
    rintro before client after t hselect ⟨ht, htotal, hclients, hrest⟩
    have hnodup : (before ++ client :: after).Nodup := hselect ▸ s.nodup_select
    have hnot : client ∉ before :=
      fun hmem => (nodup_append.mp hnodup).2.2 client hmem client (by simp) rfl
    obtain ⟨hslot, hresponses⟩ := hrest client (by rw [hselect]; simp) hnot
    obtain ⟨t', hread, ht', htotal', hclients', hframe⟩ := ht.read hslot hresponses
    refine ⟨t', hread, ht', by rw [htotal', htotal, length_append]; rfl,
      hclients'.trans hclients, ?_⟩
    intro client' hmem' hnot'
    rw [mem_append, mem_singleton, not_or] at hnot'
    rw [(hframe client' hnot'.2).1, (hframe client' hnot'.2).2]
    exact hrest client' hmem' hnot'.1
  obtain ⟨t, hrun, ht, htotal, hclients, -⟩ := key
  exact ⟨t, hrun, ht, htotal, hclients⟩

/-- **Finding new jobs**: afterwards the callback has returned `NULL` for
every client that is idle. -/
theorem Ok.run_dispatch (hends : ParallelCallbackEnds callback data) :
    ∃ t, Steps.run (ProtocolParallel.dispatch callback) s (range s.clientTotal) = some t ∧
      Ok callback data t ∧ t.doneTotal = s.doneTotal ∧ t.clientTotal = s.clientTotal ∧
      ∀ client < t.clientTotal, t.clientJobList client = none → (client, none) ∈ t.calls := by
  have key : ∃ t,
      Steps.run (ProtocolParallel.dispatch callback) s (range s.clientTotal) = some t ∧
      Ok callback data t ∧ t.doneTotal = s.doneTotal ∧ t.clientTotal = s.clientTotal ∧
        ∀ client ∈ range s.clientTotal,
          t.clientJobList client = none → (client, none) ∈ t.calls := by
    refine Steps.run_of_progress (P := fun before t =>
      Ok callback data t ∧ t.doneTotal = s.doneTotal ∧ t.clientTotal = s.clientTotal ∧
        ∀ client ∈ before, t.clientJobList client = none → (client, none) ∈ t.calls)
      (range s.clientTotal) ?_ ⟨hs, rfl, rfl, by simp⟩
    rintro before client after t hrange ⟨ht, htotal, hclients, hcalls⟩
    have hlt : client < t.clientTotal := by
      rw [hclients, ← mem_range, hrange]
      simp
    have hnodup : (before ++ client :: after).Nodup := hrange ▸ nodup_range
    obtain ⟨t', hdispatch, ht', htotal', hclients', hframe, hsubset, hnull⟩ :=
      ht.dispatch hends hlt
    refine ⟨t', hdispatch, ht', htotal'.trans htotal, hclients'.trans hclients, ?_⟩
    intro client' hmem' hslot'
    rcases mem_append.mp hmem' with hmem' | hmem'
    · have hne : client' ≠ client :=
        fun heq => (nodup_append.mp hnodup).2.2 client' hmem' client (by simp) heq
      rw [hframe client' hne] at hslot'
      exact hsubset (hcalls client' hmem' hslot')
    · obtain rfl : client' = client := by simpa using hmem'
      exact hnull hslot'
  obtain ⟨t, hrun, ht, htotal, hclients, hcalls⟩ := key
  refine ⟨t, hrun, ht, htotal, hclients, fun client hlt => hcalls client ?_⟩
  rwa [mem_range, ← hclients]

theorem Ok.setCaller (caller : ParallelCaller) : Ok callback data { s with caller := caller } :=
  ⟨⟨hs.calls.callbackData, hs.calls.freed, hs.calls.sent, hs.calls.total⟩,
    ⟨hs.jobs.perm, hs.jobs.notNull, hs.jobs.slot, hs.jobs.list, hs.jobs.returned⟩,
    ⟨hs.channels.idle, hs.channels.busy, hs.channels.nodup, hs.channels.lt⟩⟩

/-- **One call of `protocolParallelProcess`**: it does not fail, and the
number it returns is the number of jobs that are done. -/
theorem Ok.process (hends : ParallelCallbackEnds callback data) (hdone : s.doneTotal = 0) :
    ∃ t, s.process callback = some t ∧ Ok callback data t ∧ t.clientTotal = s.clientTotal ∧
      t.caller = .taking t.doneTotal ∧
      ∀ client < t.clientTotal, t.clientJobList client = none → (client, none) ∈ t.calls := by
  obtain ⟨t, hread, ht, htotal, hclients⟩ := hs.run_read hdone
  obtain ⟨t', hdispatch, ht', htotal', hclients', hcalls⟩ := ht.run_dispatch hends
  refine ⟨{ t' with caller := .taking s.select.length }, ?_, ht'.setCaller _,
    hclients'.trans hclients, ?_, hcalls⟩
  · simp only [ProtocolParallel.process, hread, Option.bind_some, hdispatch, Option.map_some]
  · show ParallelCaller.taking _ = .taking t'.doneTotal
    rw [htotal', htotal]

end

/-! ### A result is taken -/

/-- **Taking a result** finds a job when one is done. -/
theorem Ok.result (hs : Ok callback data s) {total : ℕ}
    (hdone : s.doneTotal = total + 1) :
    Ok callback data s.result ∧ s.result.doneTotal = total ∧ s.result.calls = s.calls ∧
      s.result.clientJobList = s.clientJobList ∧ s.result.clientTotal = s.clientTotal := by
  obtain ⟨address, hfind⟩ : ∃ address,
      s.jobList.find? (fun address => (s.job address).state = .done) = some address := by
    rw [← Option.isSome_iff_exists, find?_isSome]
    have : 0 < s.doneTotal := by omega
    exact countP_pos_iff.mp this
  have hstate : (s.job address).state = .done := by simpa using find?_some hfind
  have hmem := mem_of_find?_eq_some hfind
  have hresult : s.result = { s with
      jobList := s.jobList.erase address
      returned := s.returned ++ [some (address, s.job address)] } := by
    unfold ProtocolParallel.result
    rw [hfind]
  rw [hresult]
  refine ⟨⟨⟨hs.calls.callbackData, hs.calls.freed, hs.calls.sent, hs.calls.total⟩,
    ⟨?_, ?_, ?_, ?_, ?_⟩,
    ⟨hs.channels.idle, hs.channels.busy, hs.channels.nodup, hs.channels.lt⟩⟩, ?_, rfl, rfl, rfl⟩
  · show ((s.returned ++ [_]).filterMap _ ++ s.jobList.erase address).Perm _
    rw [filterMap_append]
    show (s.returnedList ++ [address] ++ s.jobList.erase address).Perm _
    rw [append_assoc, singleton_append]
    exact ((perm_cons_erase hmem).symm.append_left _).trans hs.jobs.perm
  · simp [hs.jobs.notNull]
  · intro client' address' hclient'
    obtain ⟨hlt, hmem', param, hparam, hjob⟩ := hs.jobs.slot client' address' hclient'
    refine ⟨hlt, ?_, param, hparam, hjob⟩
    refine (mem_erase_of_ne ?_).mpr hmem'
    rintro rfl
    rw [hjob] at hstate
    cases hstate
  · intro address' hmem'
    exact hs.jobs.list address' (mem_of_mem_erase hmem')
  · intro address' job hmem'
    rcases mem_append.mp hmem' with hmem' | hmem'
    · exact hs.jobs.returned address' job hmem'
    · obtain ⟨rfl, rfl⟩ : address' = address ∧ job = s.job address := by simpa using hmem'
      obtain ⟨client', param, hparam, hslot | ⟨response, hanswered, hjob⟩⟩ :=
        hs.jobs.list address' hmem
      · obtain ⟨-, -, param', -, hjob⟩ := hs.jobs.slot client' address' hslot
        rw [hjob] at hstate
        cases hstate
      · exact ⟨client', param, response, hparam, hanswered, hjob⟩
  · have hcount := (perm_cons_erase hmem).countP_eq
      (fun address => decide ((s.job address).state = .done))
    rw [countP_cons_of_pos (by simpa using hstate)] at hcount
    exact Nat.succ.inj (hcount.symm.trans hdone)

end ProtocolParallel

/-! ### The whole run -/

/-- What holds at each point of the loop of the caller. -/
def ParallelCaller.Ok (s : ProtocolParallel C J R) : ParallelCaller → Prop
  | .processing => s.doneTotal = 0
  | .taking total => s.doneTotal = total ∧
      ∀ client < s.clientTotal, s.clientJobList client = none → (client, none) ∈ s.calls
  | .finished => s.jobList = [] ∧ ∀ client < s.clientTotal, (client, none) ∈ s.calls
  | .thrown => True

/-- The invariant of the whole system. -/
structure ParallelInv (callback : C → ℕ → Option J × C) (data : C) (clientTotal : ℕ)
    (s : ProtocolParallel C J R) : Prop where
  ok : s.Ok callback data
  caller : s.caller.Ok s
  clientTotal : s.clientTotal = clientTotal

theorem parallelInv_new [Inhabited J] (clientTotal : ℕ) :
    ParallelInv callback data clientTotal
      (protocolParallelNew data clientTotal : ProtocolParallel C J R) := by
  refine ⟨⟨⟨rfl, nofun, rfl, rfl⟩, ⟨?_, nofun, nofun, nofun, nofun⟩,
    ⟨fun _ _ => ⟨rfl, rfl⟩, nofun, nodup_nil, nofun⟩⟩, rfl, rfl⟩
  exact List.Perm.refl []

/-- **One step keeps the invariant.** -/
theorem ParallelInv.step {clientTotal : ℕ} {s s' : ProtocolParallel C J R}
    (hs : ParallelInv callback data clientTotal s) (hends : ParallelCallbackEnds callback data)
    {event : ParallelEvent R} (h : parallelStep callback s event = some s') :
    ParallelInv callback data clientTotal s' := by
  obtain ⟨hok, hcaller, hclients⟩ := hs
  cases event with
  | answer client response =>
    refine ⟨hok.answer h, ?_, ?_⟩
    all_goals
      obtain ⟨address, requests, -, rfl⟩ := ProtocolParallel.answer_eq h
    · exact hcaller
    · exact hclients
  | process =>
    simp only [parallelStep] at h
    split at h
    next hprocessing =>
      rw [hprocessing] at hcaller
      obtain ⟨t, ht, hok', hclients', htaking, hcalls⟩ := hok.process hends hcaller
      cases ht.symm.trans h
      refine ⟨hok', ?_, hclients'.trans hclients⟩
      rw [htaking]
      exact ⟨rfl, hcalls⟩
    next => cases h
  | throw =>
    simp only [parallelStep] at h
    split at h
    next =>
      cases h
      exact ⟨hok.setCaller _, trivial, hclients⟩
    next => cases h
  | result =>
    simp only [parallelStep] at h
    split at h
    next total htaking =>
      cases h
      rw [htaking] at hcaller
      obtain ⟨hok', hdone, hcalls, hslot, hclients'⟩ := hok.result hcaller.1
      refine ⟨hok'.setCaller _, ⟨hdone, ?_⟩, hclients'.trans hclients⟩
      intro client hlt hnone
      rw [hclients'] at hlt
      rw [hslot] at hnone
      rw [hcalls]
      exact hcaller.2 client hlt hnone
    next => cases h
  | done =>
    simp only [parallelStep] at h
    split at h
    next htaking =>
      cases h
      rw [htaking] at hcaller
      refine ⟨hok.setCaller _, ?_, hclients⟩
      split
      next hempty =>
        -- no job is left, so no client has one
        rw [List.isEmpty_iff] at hempty
        refine ⟨hempty, fun client hlt => hcaller.2 client hlt ?_⟩
        refine Option.eq_none_iff_forall_ne_some.mpr (fun address hslot => ?_)
        have hmem := (hok.jobs.slot client address hslot).2.1
        rw [hempty] at hmem
        cases hmem
      next => exact hcaller.1
    next => cases h

/-- **Every job is run exactly once.** At every point of every run, the jobs
that were sent are the jobs that the callback has produced, each sent to the
client it was produced for; no client has two jobs in flight;
`protocolParallelResult` has not returned `NULL`; every job it has returned
carries the one response of the worker to the request of this job.
`protocolParallelProcess` never gets stuck: whenever the caller is about to call
it, it can return. When the caller has finished, it was given each job once, and
the callback has returned `NULL` to every client. -/
theorem protocolParallel_exactlyOnce [Inhabited J] (callback : C → ℕ → Option J × C) (data : C)
    (clientTotal : ℕ) (hends : ParallelCallbackEnds callback data)
    (events : List (ParallelEvent R)) (t : ProtocolParallel C J R)
    (hrun : Steps.run (parallelStep callback) (protocolParallelNew data clientTotal) events
      = some t) :
    t.sent = t.produced ∧
    (∀ client, (t.requests client).length + (t.responses client).length ≤ 1) ∧
    none ∉ t.returned ∧
    (t.answered.map Prod.fst).Nodup ∧
    (∀ address job, some (address, job) ∈ t.returned →
      ∃ client param response, t.produced[address]? = some (client, param) ∧
        (address, response) ∈ t.answered ∧ job = .done client param response) ∧
    (t.caller = .processing → (parallelStep callback t .process).isSome) ∧
    (t.caller = .finished →
      (t.returned.map (Option.map Prod.fst)).Perm ((range t.produced.length).map some) ∧
      ∀ client < clientTotal, (client, none) ∈ t.calls) := by
  obtain ⟨hok, hcaller, rfl⟩ := Steps.run_invariant
    (P := ParallelInv callback data clientTotal)
    (fun _ _ _ hs hstep => hs.step hends hstep) events (parallelInv_new clientTotal) hrun
  refine ⟨hok.calls.sent, fun client => ?_, hok.jobs.notNull, hok.channels.nodup,
    hok.jobs.returned, fun hprocessing => ?_, fun hfinished => ?_⟩
  · cases hslot : t.clientJobList client with
    | none =>
      obtain ⟨hrequests, hresponses⟩ := hok.channels.idle client hslot
      simp [hrequests, hresponses]
    | some address =>
      rcases hok.channels.busy client address hslot with
        ⟨hrequests, hresponses, -⟩ | ⟨hrequests, response, hresponses, -⟩ <;>
        simp [hrequests, hresponses]
  · rw [hprocessing] at hcaller
    obtain ⟨next, hnext, -⟩ := hok.process hends hcaller
    simp only [parallelStep, hprocessing, hnext, Option.isSome_some]
  · rw [hfinished] at hcaller
    obtain ⟨hempty, hcalls⟩ := hcaller
    refine ⟨?_, hcalls⟩
    have hperm := hok.jobs.perm
    rw [hempty, append_nil, hok.calls.total] at hperm
    have hreturned : t.returned.map (Option.map Prod.fst) = t.returnedList.map some := by
      rw [ProtocolParallel.returnedList, map_filterMap]
      refine (filterMap_eq_map_iff_forall_eq_some.mpr (fun x hx => ?_)).symm
      cases x with
      | none => exact absurd hx hok.jobs.notNull
      | some x => rfl
    rw [hreturned]
    exact hperm.map some

/-- A callback with a number of jobs, which it hands out to whoever asks. -/
def parallelCallbackSample (left : ℕ) (_client : ℕ) : Option ℕ × ℕ :=
  match left with
  | 0 => (none, 0)
  | left + 1 => (some left, left)

/-- Three jobs for two clients: the workers answer in another order than they
were asked, one of them with an error. -/
def parallelEventsSample : List (ParallelEvent ℕ) :=
  [.process, .done, .process, .done, .answer 1 (.result 7), .process, .result, .done,
    .answer 1 (.error 25 "error"), .answer 0 (.result 8), .process, .result, .result, .done]

theorem parallelCallbackSample_ends (data : ℕ) :
    ParallelCallbackEnds parallelCallbackSample data := by
  have hzero : ∀ clients, parallelCallbackRun parallelCallbackSample 0 clients = 0 := by
    intro clients
    induction clients with
    | nil => rfl
    | cons client clients ih => exact ih
  intro before between client hnone
  have hbefore : parallelCallbackRun parallelCallbackSample data before = 0 := by
    cases h : parallelCallbackRun parallelCallbackSample data before with
    | zero => rfl
    | succ left => rw [h] at hnone; cases hnone
  have hall : parallelCallbackRun parallelCallbackSample data (before ++ client :: between) = 0 := by
    show foldl _ _ _ = 0
    rw [foldl_append]
    show parallelCallbackRun parallelCallbackSample
      (parallelCallbackRun parallelCallbackSample data before) (client :: between) = 0
    rw [hbefore, hzero]
  rw [hall]
  rfl

theorem protocolParallel_exactlyOnce_sample :
    ∃ t : ProtocolParallel ℕ ℕ ℕ,
      Steps.run (parallelStep parallelCallbackSample) (protocolParallelNew 3 2)
        parallelEventsSample = some t ∧
      t.caller = .finished ∧ t.produced.length = 3 ∧
      (t.returned.map (Option.map Prod.fst)).Perm ((range 3).map some) := by
  have heval : (Steps.run (parallelStep parallelCallbackSample) (protocolParallelNew 3 2)
      parallelEventsSample).map (fun t => (t.caller, t.produced.length)) = some (.finished, 3) := by
    decide +kernel
  obtain ⟨t, hrun, ht⟩ := Option.map_eq_some_iff.mp heval
  obtain ⟨hfinished, htotal⟩ := Prod.mk.inj ht
  obtain ⟨-, -, -, -, -, -, hall⟩ := protocolParallel_exactlyOnce parallelCallbackSample
    3 2 (parallelCallbackSample_ends 3) parallelEventsSample t hrun
  exact ⟨t, hrun, hfinished, htotal, htotal ▸ (hall hfinished).1⟩

end PgxBackup
