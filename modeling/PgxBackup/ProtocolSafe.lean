import PgxBackup.ProtocolClientSafe

/-!
# The sessions of a protocol client

Every response is taken once, by the session whose latest request it answers.
When a session is freed, cancelled or closed nothing is left of it. This holds
in every run where the client is used as documented and sessions are freed in
one of the states that freeing them is right for.

A session that is open and has a stored response is not: the stored response is
freed but the session is still queued, so that the cancel cannot be sent. When
the response that is queued is an error the session is not removed. And a
session that is neither asynchronous nor was opened is not in the list that it
is removed from.
-/

namespace PgxBackup

open List

variable {W S P D : Type}

/-! ## The documented use -/

/-- The session can process a request: it is open when its command needs it. -/
def ProtocolClientSession.Processes (service : ProtocolService W S P D)
    (session : ProtocolClientSession D) : Prop :=
  (session.isOpen = true ∧ service.IsSession session.command) ∨
    (session.isOpen = false ∧ service.IsStandalone session.command)

/-- **The documented use of the client.** Sessions are used until they are closed,
cancelled or freed; a session that is not asynchronous is opened once; there is
at most one outstanding request. -/
def ProtocolUse (service : ProtocolService W S P D) (s : ProtocolSystem W S P D) :
    ProtocolEvent P → Prop
  | .begin (.new _ _) => True
  | .begin (.opn id _) => ∃ session, s.session id = some session ∧
      (session.isOpen = false ∧ session.queued = false ∧
        (session.async = true ∨ session.callback = false) ∧ service.IsOpen session.command)
  | .begin (.request id _) => ∃ session, s.session id = some session ∧
      (session.queued = false ∧ session.Processes service)
  | .begin (.requestAsync id _) => ∃ session, s.session id = some session ∧
      (session.async = true ∧ session.queued = false ∧ session.Processes service)
  | .begin (.response id) => ∃ session, s.session id = some session ∧
      (session.async = true ∧ session.queued = true)
  | .begin (.close id) => ∃ session, s.session id = some session ∧
      (session.isOpen = true ∧ session.queued = false)
  | .begin (.cancel id) => (s.session id).isSome = true
  | .begin (.free id) => (s.session id).isSome = true
  | .begin (.oneShot command _) => service.IsStandalone command
  | .read => True
  | .server => True

/-- The session is not open with a stored response. -/
def ProtocolFreeable (s : ProtocolSystem W S P D) (id : ℕ) : Prop :=
  ∀ session, s.session id = some session → (session.isOpen = true → session.stored = false)

/-- Is the response that is queued read because the session is freed? -/
def ProtocolClientCall.freeing : ProtocolClientCall → Bool
  | freeQueued _ _ => true
  | _ => false

/-- **When freeing a session is right.** -/
def ProtocolFree (s : ProtocolSystem W S P D) : ProtocolEvent P → Prop
  | .begin (.cancel id) => id ∈ s.client.sessionList ∧ ProtocolFreeable s id
  | .begin (.free id) => ProtocolFreeable s id
  | .read => ∀ id ∈ s.call.session, ∀ next ∈ protocolClientNext s id,
      s.call.freeing = true → next.1.sessionId = id → next.1.message.isError = false
  | _ => True

/-! ## The server -/

theorem ProtocolProcessed.mem_iff {request : ProtocolRequest P} {server server' : ProtocolServer W S}
    {response : ProtocolResponse D} (h : ProtocolProcessed request server response server') {id : ℕ}
    (hne : id ≠ request.sessionId) : id ∈ server'.sessionIdList ↔ id ∈ server.sessionIdList := by
  unfold ProtocolServer.sessionIdList
  rw [mem_map, mem_map]
  constructor
  · rintro ⟨entry, hentry, rfl⟩
    exact ⟨entry, (h.others entry hne).mp hentry, rfl⟩
  · rintro ⟨entry, hentry, rfl⟩
    exact ⟨entry, (h.others entry hne).mpr hentry, rfl⟩

section Server

variable {service : ProtocolService W S P D} {s : ProtocolSystem W S P D}

variable {request : ProtocolRequest P}

theorem ProtocolInv.asked (h : ProtocolInv service s)
    {rest : List (ProtocolRequest P)} (hrequest : s.request = request :: rest) :
    ∃ session, s.session request.sessionId = some session ∧
      ProtocolAsked service (s.account request.sessionId) session request := by
  have hok := h.account request.sessionId
  have hfirst : (s.account request.sessionId).request =
      request :: rest.filter (fun other => other.sessionId = request.sessionId) := by
    simp [ProtocolSystem.account, hrequest]
  cases hsession : (s.account request.sessionId).session with
  | none =>
    have hnil := (hok.gone hsession).2.1
    rw [hfirst] at hnil
    cases hnil
  | some session =>
    refine ⟨session, hsession, ?_⟩
    rcases hok.way session hsession with hquiet | ⟨request', hasked⟩ | ⟨response, hanswered⟩
    · have hnil := hquiet.onWay
      rw [hfirst] at hnil
      cases hnil
    · have hone := hasked.onWay
      rw [hfirst] at hone
      obtain rfl := (cons.inj hone).1
      exact hasked
    · have hnil := hanswered.onWay
      rw [hfirst] at hnil
      cases hnil

theorem ProtocolAsked.requestOk {session : ProtocolClientSession D}
    (h : ProtocolAsked service (s.account request.sessionId) session request) :
    ProtocolRequestOk service s.server request := by
  refine ⟨fun htype => ⟨(h.opn htype).1, ?_⟩, h.prc, h.end_⟩
  have hserved := (h.opn htype).2.1
  simpa [ProtocolSystem.account] using hserved

theorem ProtocolAccount.Ok.answered {a : ProtocolAccount P D} {session : ProtocolClientSession D}
    {response : ProtocolResponse D} {served : Bool}
    (h : a.Ok service) (hsession : a.session = some session)
    (hasked : ProtocolAsked service a session request)
    (hserved : served = true → request.type = .opn ∨ a.served = true)
    (hclose : response.close = true → served = false)
    (hcnc : request.type = .cnc → response.close = true ∧ response.message.isError = false)
    (hcls : request.type = .cls → response.message.isError = false → response.close = true) :
    ({ a with
        request := []
        response := a.response ++ [response]
        served := served
        handled := a.handled ++ [(request, response)] } : ProtocolAccount P D).Ok service := by
  have hopen : ∀ {session'}, a.session = some session' → session' = session :=
    fun h' => Option.some.inj (h'.symm.trans hsession)
  obtain ⟨hstored, hresponse⟩ := append_eq_nil_iff.mp hasked.waiting
  have hwaiting : ({ a with
        request := []
        response := a.response ++ [response]
        served := served
        handled := a.handled ++ [(request, response)] } : ProtocolAccount P D).waiting = [response] := by
    show a.stored ++ (a.response ++ [response]) = [response]
    rw [hstored, hresponse]
    rfl
  refine ⟨fun hnone => absurd (hsession.symm.trans hnone) nofun, fun session' h' => Or.inr (Or.inr
    ⟨response, ?_⟩), fun hs => ⟨session, hsession, ?_⟩, h.command, h.tracked, h.callback, h.listed,
    h.queued, h.calling, h.oneShot, h.ending, ?_, ?_⟩
  · obtain rfl := hopen h'
    exact ⟨hasked.queued, rfl, hwaiting, hclose, fun id memory hcall => hcnc (hasked.cancel id memory hcall),
      fun id hcall => hcls (hasked.close id hcall)⟩
  · rcases hserved hs with htype | hserved
    · exact (hasked.opn htype).2.2
    · obtain ⟨session', hsession', hisOpen⟩ := h.served hserved
      rwa [hopen hsession'] at hisOpen
  · have hsent := h.sent
    rw [hasked.onWay] at hsent
    show a.sent = (a.handled ++ [(request, response)]).map Prod.fst ++ []
    rw [hsent, map_append, append_nil]
    rfl
  · have htaken := h.taken
    rw [hasked.waiting, append_nil] at htaken
    refine (congrArg (a.taken ++ ·) hwaiting).trans ?_
    show a.taken ++ [response] = (a.handled ++ [(request, response)]).map Prod.snd
    rw [htaken, map_append]
    rfl

/-- **The server processes a request.** -/
theorem ProtocolInv.server {s' : ProtocolSystem W S P D} (h : ProtocolInv service s)
    (hstep : protocolStep service s .server = some s') : ProtocolInv service s' := by
  unfold protocolStep at hstep
  cases hrequest : s.request with
  | nil =>
    rw [hrequest] at hstep
    cases hstep
  | cons request rest =>
    rw [hrequest] at hstep
    dsimp only at hstep
    obtain ⟨session, hsession, hasked⟩ := h.asked hrequest
    obtain ⟨response, server', hprocess, hprocessed⟩ :=
      protocolServerProcess_ok h.serverNodup hasked.requestOk
    rw [h.exit, if_neg Bool.false_ne_true, hprocess] at hstep
    cases hstep
    have hfirst : (s.account request.sessionId).request =
        request :: rest.filter (fun other => other.sessionId = request.sessionId) := by
      simp [ProtocolSystem.account, hrequest]
    have hrest : rest.filter (fun other => other.sessionId = request.sessionId) = [] := by
      have hone := hasked.onWay
      rw [hfirst] at hone
      exact (cons.inj hone).2
    -- the account of the session and those of the others
    have hown : ∀ id, ProtocolSystem.account (W := W) (S := S)
        { s with
          request := rest
          response := s.response ++ (some response).toList
          server := server'
          handled := s.handled ++ ((some response).map (fun response => (request, response))).toList } id =
        if id = request.sessionId then
          { s.account id with
            request := []
            response := (s.account id).response ++ [response]
            served := id ∈ server'.sessionIdList
            handled := (s.account id).handled ++ [(request, response)] }
        else s.account id := by
      intro id
      by_cases hid : id = request.sessionId
      · subst hid
        rw [if_pos rfl]
        simp [ProtocolSystem.account, hrest, hprocessed.sessionId]
      · rw [if_neg hid]
        simp [ProtocolSystem.account, hrequest, hprocessed.sessionId, hprocessed.mem_iff hid, Ne.symm hid]
    refine ⟨h.failed, hprocessed.exit.trans h.exit, h.idle, h.busy, h.bounds, h.nodup, hprocessed.nodup,
      ?_, fun id => ?_, fun id message hresult => ?_⟩
    · have horder := h.order
      rw [hrequest] at horder
      show s.sent = (s.handled ++ [(request, response)]).map Prod.fst ++ rest
      rw [horder, map_append, append_assoc]
      rfl
    · rw [hown]
      by_cases hid : id = request.sessionId
      · subst hid
        rw [if_pos rfl]
        refine (h.account _).answered hsession hasked (fun hs => ?_) (fun hc => ?_) hprocessed.cnc
          hprocessed.cls
        · refine (hprocessed.own (of_decide_eq_true hs)).imp_right (fun hmem => ?_)
          exact decide_eq_true hmem
        · exact decide_eq_false (hprocessed.close hc)
      · rw [if_neg hid]
        exact h.account id
    · obtain ⟨honWay, hwaiting⟩ := h.result id message hresult
      rw [hown]
      by_cases hid : id = request.sessionId
      · subst hid
        rw [hfirst] at honWay
        cases honWay
      · rw [if_neg hid]
        exact ⟨honWay, hwaiting⟩

end Server

/-! ## The calls -/

section Begin

variable {service : ProtocolService W S P D} {s : ProtocolSystem W S P D} {id : ℕ}
  {session : ProtocolClientSession D}

theorem ProtocolInv.reset (h : ProtocolInv service s) : ProtocolInv service { s with result := none } :=
  ⟨h.failed, h.exit, h.idle, fun _ => rfl, h.bounds, h.nodup, h.serverNodup, h.order, h.account, nofun⟩

theorem ProtocolInv.good (h : ProtocolInv service s) (hsession : s.session id = some session)
    {s' : ProtocolSystem W S P D} {a : ProtocolAccount P D} (hgood : ProtocolGood service s s' id a) :
    ProtocolInv service s' :=
  h.touch hgood.touch hgood.ok (h.bounds id session hsession) hgood.idle hgood.busy hgood.result

theorem ProtocolInv.ready (h : ProtocolInv service s) (hcall : s.call = .none) (id : ℕ) :
    ProtocolReady s id :=
  ⟨h.idle hcall, h.nodup, Or.inl (by rw [hcall]; rfl)⟩

theorem account_call (hcall : s.call = .none) (id : ℕ) : (s.account id).call = .none := by
  show (if s.call.session = some id then s.call else .none) = _
  rw [hcall]
  rfl

theorem mem_sessionList_iff : id ∈ s.client.sessionList ↔ (s.account id).listed = true := by
  simp [ProtocolSystem.account]

section

variable (h : ProtocolInv service s)
include h

/-- Between the calls, a session is in the list exactly if it has its callback. -/
theorem ProtocolInv.callback_iff (hcall : s.call = .none) (hsession : s.session id = some session) :
    session.callback = true ↔ (s.account id).listed = true := by
  refine ⟨(h.account id).callback session hsession, fun hlisted => ?_⟩
  rcases (h.account id).listed session hsession hlisted with hcallback | ⟨id', memory, hfree | hfree⟩
  · exact hcallback
  · rw [account_call hcall] at hfree
    cases hfree
  · rw [account_call hcall] at hfree
    cases hfree

/-- **A new session.** -/
theorem ProtocolInv.new (hnone : s.result = none) (command : Str) (async : Bool) :
    ProtocolInv service (protocolClientSessionNew s command async) := by
  -- the id is new
  have hfree : (s.account (s.client.sessionTotal + 1)).session = none := by
    cases hsession : s.session (s.client.sessionTotal + 1) with
    | none => exact hsession
    | some session => exact absurd (h.bounds _ session hsession).2 (Nat.not_succ_le_self _)
  have hmem : s.client.sessionTotal + 1 ∉ s.client.sessionList := by
    intro hmem
    have hlisted := ((h.account _).gone hfree).1
    cases hlisted.symm.trans (mem_sessionList_iff.mp hmem)
  -- one more id is in use
  have htotal : ProtocolInv service
      { s with client := { s.client with sessionTotal := s.client.sessionTotal + 1 } } :=
    ⟨h.failed, h.exit, h.idle, h.busy, fun id session hs =>
      ⟨(h.bounds id session hs).1, (h.bounds id session hs).2.trans (Nat.le_succ _)⟩, h.nodup,
      h.serverNodup, h.order, h.account, h.result⟩
  have hset := touch_setSession
    { s with client := { s.client with sessionTotal := s.client.sessionTotal + 1 } }
    (s.client.sessionTotal + 1)
    (some
      { command := command, isOpen := false, queued := false, async := async, stored := false,
        close := false, message := .response none, callback := async })
  have hresult : ∀ {id' message}, s.result ≠ some (id', message) := by
    intro id' message hs
    rw [hnone] at hs
    cases hs
  cases async with
  | false =>
    refine htotal.touch hset ?_ ⟨Nat.succ_pos _, le_rfl⟩
      h.idle h.busy (fun id' message hs => absurd hs hresult)
    have hlisted := ((h.account _).gone hfree).1
    exact (h.account _).new hfree rfl rfl rfl rfl hlisted
  | true =>
    have hlist := touch_list_append
      (({ s with client := { s.client with sessionTotal := s.client.sessionTotal + 1 } } :
        ProtocolSystem W S P D).setSession (s.client.sessionTotal + 1)
      (some
        { command := command, isOpen := false, queued := false, async := true, stored := false,
          close := false, message := .response none, callback := true })) hmem
    rw [hset.account] at hlist
    exact htotal.touch (hset.trans hlist) ((h.account _).new hfree rfl rfl rfl rfl rfl) ⟨Nat.succ_pos _, le_rfl⟩ h.idle h.busy
      (fun id' message hs => absurd hs hresult)

/-- **A request and the wait for its response.** -/
theorem ProtocolInv.requestWait (hcall : s.call = .none) (hnone : s.result = none)
    (hsession : s.session id = some session) (hqueued : session.queued = false)
    (type : ProtocolCommandType) (param : Option P) (call : ProtocolClientCall)
    (hwait : call.session = some id) (hopn : type ≠ .opn)
    (hprc : type = .prc → session.Processes service)
    (hend : type = .cls ∨ type = .cnc → session.isOpen = true)
    (hcancel : ∀ id memory, call ≠ .freeCancel id memory)
    (hclose : ∀ id, call = .close id → type = .cls)
    (hends : call.ends = true → session.isOpen = true)
    (honeShot : ∀ id', call = .oneShot id' → (s.account id).listed = false ∧ session.isOpen = false) :
    ∃ s', (protocolClientRequestInternal s id type param >>=
        fun this => protocolClientResponseInternal this call id) = .ok s' ∧
      ProtocolInv service s' := by
  have hok := h.account id
  have hrest := hok.rest hsession hqueued
  have hready := h.ready hcall id
  obtain ⟨s₁, hs₁, htouch₁, hstate₁, hcall₁, hresult₁⟩ :=
    protocolClientRequestInternal_reach hsession hqueued hready.idle type param
  have hsession₁ : s₁.session id = some { session with queued := true } :=
    congrArg ProtocolAccount.session htouch₁.account
  obtain ⟨s₂, hs₂, htouch₂, hstate₂, hcall₂, hresult₂⟩ :=
    protocolClientResponseInternal_reach hsession₁ (hstate₁.trans hready.idle)
      (by rw [hcall₁]; exact hready.call) call hwait
  rw [htouch₁.account] at htouch₂
  have hresult : s₂.result = none := hresult₂.trans (hresult₁.trans hnone)
  have hbusy : call ≠ .none := by
    rintro rfl
    cases hwait
  refine ⟨s₂, by rw [hs₁]; exact hs₂, h.good hsession (a := _) ⟨htouch₁.trans htouch₂, ?_, fun hend => ?_,
    fun _ => hresult, fun id' message hm => ?_⟩⟩
  · refine hrest.asked rfl hrest.stored (fun h => h) hrest.command (fun h => absurd h hopn) (fun htype => ?_)
      (fun htype => ?_) (fun id memory h => absurd h (hcancel id memory)) hclose (hok.tracked session hsession)
      (hok.callback session hsession) (fun hlisted => ?_) (Or.inr hbusy) honeShot (fun h => ?_)
    · exact hprc htype
    · have hopen := hend htype
      exact ⟨hopen, hrest.command hopen⟩
    · exact Or.inl ((h.callback_iff hcall hsession).mpr hlisted)
    · exact hok.tracked session hsession (Or.inr (hends h))
  · exact absurd (hcall₂.symm.trans hend) hbusy
  · rw [hresult] at hm
    cases hm

section

variable (hcall : s.call = .none) (hnone : s.result = none) (hsession : s.session id = some session)
include hcall hnone hsession

/-- **An asynchronous request.** -/
theorem ProtocolInv.requestAsync (hasync : session.async = true) (hqueued : session.queued = false)
    (hprc : session.Processes service) (param : Option P) :
    ∃ s', protocolClientRequestInternal s id .prc param = .ok s' ∧ ProtocolInv service s' := by
  have hok := h.account id
  have hrest := hok.rest hsession hqueued
  have hready := h.ready hcall id
  have hlisted := hok.tracked session hsession (Or.inl hasync)
  obtain ⟨s₁, hs₁, htouch₁, hstate₁, hcall₁, hresult₁⟩ :=
    protocolClientRequestInternal_reach hsession hqueued hready.idle .prc param
  refine ⟨s₁, hs₁, h.good hsession (a := _) ⟨htouch₁, ?_, fun _ => hstate₁.trans hready.idle,
    fun hne => absurd (hcall₁.trans hcall) hne, fun id' message hm => ?_⟩⟩
  · have hnocall := account_call hcall id
    refine hrest.asked rfl hrest.stored (fun h => h) hrest.command nofun (fun _ => hprc)
      (fun h => by rcases h with h | h <;> cases h) (fun id memory h => ?_) (fun id h => ?_)
      (hok.tracked session hsession) (hok.callback session hsession) (fun hlisted => ?_) (Or.inl hlisted)
      (fun id h => ?_) (fun _ => hlisted)
    · cases hnocall.symm.trans h
    · cases hnocall.symm.trans h
    · exact Or.inl ((h.callback_iff hcall hsession).mpr hlisted)
    · cases hnocall.symm.trans h
  · rw [hresult₁, hnone] at hm
    cases hm

/-- **Waiting for the response of an asynchronous request.** -/
theorem ProtocolInv.wait (hqueued : session.queued = true) :
    ∃ s', protocolClientResponseInternal s (.response id) id = .ok s' ∧ ProtocolInv service s' := by
  have hok := h.account id
  have hready := h.ready hcall id
  obtain ⟨s', hs', htouch, hstate, hcall', hresult⟩ :=
    protocolClientResponseInternal_reach hsession hready.idle hready.call (.response id) rfl
  have hfound : (s.account id).session = some session := hsession
  refine ⟨s', hs', h.good hsession (a := _) ⟨htouch, ?_, fun hend => ?_, fun _ => hresult.trans hnone,
    fun id' message hm => ?_⟩⟩
  · have hwait := hok.wait hfound hqueued (account_call hcall id) (Or.inr ⟨⟨id, rfl⟩, rfl⟩) (fun h => h)
      (fun h => absurd h Bool.false_ne_true)
    rw [← hfound] at hwait
    exact hwait
  · rw [hcall'] at hend
    cases hend
  · rw [hresult, hnone] at hm
    cases hm

end

end

theorem setSession_self (hsession : s.session id = some session) :
    s.setSession id (some session) = s := by
  unfold ProtocolSystem.setSession
  rw [← hsession, Function.update_eq_self]

theorem ProtocolAccount.Ok.storedAnswered {a : ProtocolAccount P D} (h : a.Ok service)
    (hsession : a.session = some session) (hstored : session.stored = true) :
    ProtocolAnswered a session ⟨a.id, session.close, session.message⟩ ∧ a.response = [] := by
  have hwaiting : a.waiting = ⟨a.id, session.close, session.message⟩ :: a.response := by
    unfold ProtocolAccount.waiting ProtocolAccount.stored
    rw [hsession]
    dsimp only
    rw [hstored]
    rfl
  rcases h.way session hsession with hquiet | ⟨request, hasked⟩ | ⟨response, hanswered⟩
  · have hnil := hquiet.waiting
    rw [hwaiting] at hnil
    cases hnil
  · have hnil := hasked.waiting
    rw [hwaiting] at hnil
    cases hnil
  · have hone := hanswered.waiting
    rw [hwaiting] at hone
    obtain ⟨hfirst, hrest⟩ := cons.inj hone
    rw [hfirst]
    exact ⟨hanswered, hrest⟩

/-- **Freeing a session** whose callback may have been cleared before. -/
theorem ProtocolInv.free (h : ProtocolInv service s) (hcall : s.call = .none) (hnone : s.result = none)
    (hsession : s.session id = some session) (hlisted : (s.account id).listed = true)
    (hfreeable : ProtocolFreeable s id) (callback : Bool)
    (hcallback : callback = true → session.callback = true) (memory : Bool) :
    ∃ s', protocolClientSessionFreeResource
        (s.setSession id (some { session with callback := callback })) id memory = .ok s' ∧
      ProtocolInv service s' := by
  have hok := h.account id
  have hfound : (s.account id).session = some session := hsession
  have hset := touch_setSession s id (some { session with callback := callback })
  have hready : ProtocolReady (s.setSession id (some { session with callback := callback })) id :=
    ⟨h.idle hcall, h.nodup, (h.ready hcall id).call⟩
  have hnone₁ : (s.setSession id (some { session with callback := callback })).result = none := hnone
  have hlisted₁ : id ∈ (s.setSession id (some { session with callback := callback })).client.sessionList :=
    mem_sessionList_iff.mpr hlisted
  generalize s.setSession id (some { session with callback := callback }) = s₁ at *
  have hsession₁ : s₁.session id = some { session with callback := callback } :=
    congrArg ProtocolAccount.session hset.account
  unfold protocolClientSessionFreeResource
  simp only [getSession_ok hsession₁, bind, Except.bind]
  cases hqueued : session.queued with
  | false =>
    rw [if_neg Bool.false_ne_true]
    have hrest := (hok.rest hfound hqueued).callback callback
    rw [← hset.account] at hrest
    obtain ⟨s', a, hs', hgood⟩ := protocolClientSessionFreeOpen_good hready hrest
      (mem_sessionList_iff.mp hlisted₁) (fun id' message hm => absurd (hnone₁.symm.trans hm) nofun)
      (fun _ => hnone₁) memory
    exact ⟨s', hs', h.good hsession (hgood.trans hset)⟩
  | true =>
    rw [if_pos rfl]
    cases hstored : session.stored with
    | true =>
      rw [if_pos rfl]
      have hopen : session.isOpen = false := by
        rw [← Bool.not_eq_true]
        intro hopen
        cases (hfreeable session hsession hopen).symm.trans hstored
      obtain ⟨hanswered, hresponse⟩ := hok.storedAnswered hfound hstored
      let s₂ : ProtocolSystem W S P D :=
        { s₁ with taken := s₁.taken ++ [⟨id, session.close, session.message⟩] }
      have htaken : ProtocolTouch s₁ s₂ id _ := touch_taken s₁ id _ rfl
      rw [hset.account] at htaken
      have hready₂ : ProtocolReady s₂ id := ⟨hready.idle, hready.nodup, hready.call⟩
      have hlisted₂ : id ∈ s₂.client.sessionList := hlisted₁
      obtain ⟨s', hs', htouch, hstate, hcall', hresult⟩ :=
        protocolClientSessionRemove_reach hlisted₂ hready₂.nodup hready₂.call
      rw [htaken.account] at htouch
      refine ⟨s', ?_, h.good hsession (a := _) ⟨(hset.trans htaken).trans htouch, ?_,
        fun _ => hstate.trans hready₂.idle, fun hne => absurd hcall' hne, fun id' message hm => ?_⟩⟩
      · show protocolClientSessionFreeOpen s₂ _ _ = _
        unfold protocolClientSessionFreeOpen
        simp only [getSession_ok (show s₂.session id = _ from hsession₁), bind, Except.bind, hopen,
          Bool.false_eq_true, if_false]
        exact hs'
      · have htake : ProtocolRest service
            { s.account id with
              session := some { session with queued := false, stored := false }
              response := (s.account id).response
              taken := (s.account id).taken ++ [⟨id, session.close, session.message⟩] }
            { session with queued := false, stored := false } :=
          hok.take hfound hanswered { session with queued := false, stored := false } rfl rfl rfl
            (by simp [hopen]) hresponse
        exact htake.gone hopen
      · rw [hresult] at hm
        cases hnone₁.symm.trans hm
    | false =>
      rw [if_neg Bool.false_ne_true]
      obtain ⟨s', hs', htouch, hstate, hcall', hresult⟩ :=
        protocolClientResponseInternal_reach hsession₁ hready.idle hready.call (.freeQueued id memory) rfl
      rw [hset.account] at htouch
      refine ⟨s', hs', h.good hsession (a := _) ⟨hset.trans htouch, ?_, fun hend => ?_,
        fun _ => hresult.trans hnone₁, fun id' message hm => ?_⟩⟩
      · exact hok.wait hfound hqueued (account_call hcall id) (Or.inl ⟨id, memory, rfl⟩) hcallback
          (fun _ => hlisted)
      · rw [hcall'] at hend
        cases hend
      · rw [hresult] at hm
        cases hnone₁.symm.trans hm

theorem ProtocolService.IsOpen.isSession {command : Str} (h : service.IsOpen command) :
    service.IsSession command := by
  obtain ⟨handler, hhandler, hopn⟩ := h
  exact ⟨handler, hhandler, handler.kind_opn hopn⟩

section

variable (h : ProtocolInv service s) (hcall : s.call = .none) (hnone : s.result = none)
include h hcall hnone

/-- **Opening a session.** -/
theorem ProtocolInv.openWait (hsession : s.session id = some session)
    (hopen : session.isOpen = false) (hqueued : session.queued = false)
    (htrack : session.async = true ∨ session.callback = false)
    (hisOpen : service.IsOpen session.command) (param : Option P) :
    ∃ s', protocolClientSessionOpen s id param = .ok s' ∧ ProtocolInv service s' := by
  have hok := h.account id
  have hrest := hok.rest hsession hqueued
  have hready := h.ready hcall id
  obtain ⟨s₁, hs₁, htouch₁, hstate₁, hcall₁, hresult₁⟩ :=
    protocolClientRequestInternal_reach hsession hqueued hready.idle .opn param
  have hsession₁ : s₁.session id = some { session with queued := true } :=
    congrArg ProtocolAccount.session htouch₁.account
  have hset := touch_setSession s₁ id
    (some { session with queued := true, isOpen := true, callback := true })
  rw [htouch₁.account] at hset
  have hset := htouch₁.trans hset
  have hmem : id ∈ s₁.client.sessionList ↔ (s.account id).listed = true := by
    rw [mem_sessionList_iff, htouch₁.account]
  -- the session is in the list, or it is added
  have hlist : ProtocolTouch s
      { s₁.setSession id (some { session with queued := true, isOpen := true, callback := true }) with
        client :=
          { s₁.client with
            sessionList :=
              if session.async then s₁.client.sessionList else s₁.client.sessionList ++ [id] } } id
      { s.account id with
        session := some { session with queued := true, isOpen := true, callback := true }
        listed := true
        request := (s.account id).request ++ [⟨session.command, .opn, id, session.isOpen, param⟩]
        sent := (s.account id).sent ++ [⟨session.command, .opn, id, session.isOpen, param⟩] } := by
    by_cases hasync : session.async = true
    · rw [if_pos hasync]
      refine hset.of_eq ?_
      dsimp only
      rw [hok.tracked session hsession (Or.inl hasync)]
    · rw [if_neg hasync]
      have hfree : session.callback = false := htrack.resolve_left hasync
      refine hset.trans ?_
      have hadd := touch_list_append (s₁.setSession id (some
        { session with queued := true, isOpen := true, callback := true }))
        (fun hin => by
          have hcb := (h.callback_iff hcall hsession).mpr (hmem.mp hin)
          exact absurd (hfree.symm.trans hcb) Bool.false_ne_true)
      rw [hset.account] at hadd
      exact hadd
  have hsession₂ : ({ s₁.setSession id
        (some { session with queued := true, isOpen := true, callback := true }) with
      client :=
        { s₁.client with
          sessionList :=
            if session.async then s₁.client.sessionList else s₁.client.sessionList ++ [id] } } :
      ProtocolSystem W S P D).session id =
        some { session with queued := true, isOpen := true, callback := true } :=
    congrArg ProtocolAccount.session hlist.account
  obtain ⟨s₂, hs₂, htouch₂, hstate₂, hcall₂, hresult₂⟩ :=
    protocolClientResponseInternal_reach hsession₂ (hstate₁.trans hready.idle)
      (Or.inl (congrArg ProtocolClientCall.session (hcall₁.trans hcall))) (.response id) rfl
  rw [hlist.account] at htouch₂
  have hresult : s₂.result = none := hresult₂.trans (hresult₁.trans hnone)
  refine ⟨s₂, ?_, h.good hsession (a := _) ⟨hlist.trans htouch₂, ?_, fun hend => ?_, fun _ => hresult,
    fun id' message hm => ?_⟩⟩
  · unfold protocolClientSessionOpen
    simp only [getSession_ok hsession, bind, Except.bind, hopen, Bool.false_eq_true, if_false, hs₁,
      getSession_ok hsession₁]
    exact hs₂
  · exact hrest.asked rfl hrest.stored (fun _ => rfl) (fun _ => hisOpen.isSession)
      (fun _ => ⟨hisOpen, hopen, rfl⟩) nofun (fun h => by rcases h with h | h <;> cases h) nofun nofun
      (fun _ => rfl) (fun _ => rfl) (fun _ => Or.inl rfl) (Or.inl rfl) nofun (fun _ => rfl)
  · rw [hcall₂] at hend
    cases hend
  · rw [hresult] at hm
    cases hm

/-- **A session without its callback is freed**: it is not in the list. -/
theorem ProtocolInv.freeMemory (hsession : s.session id = some session)
    (hcallback : session.callback = false) : ProtocolInv service (s.setSession id none) := by
  have hok := h.account id
  have hlisted : (s.account id).listed = false := by
    rw [← Bool.not_eq_true, ← h.callback_iff hcall hsession, hcallback]
    exact Bool.false_ne_true
  have hqueued : session.queued = false := by
    rw [← Bool.not_eq_true]
    intro hqueued
    rcases hok.queued session hsession hqueued with hin | hin
    · cases hlisted.symm.trans hin
    · exact hin (account_call hcall id)
  have hopen : session.isOpen = false := by
    rw [← Bool.not_eq_true]
    intro hopen
    exact absurd (hlisted.symm.trans (hok.tracked session hsession (Or.inr hopen))) Bool.false_ne_true
  have hgone := (hok.rest hsession hqueued).gone hopen
  refine h.good hsession (a := _) ⟨(touch_setSession s id none).of_eq ?_, hgone, fun _ => h.idle hcall,
    fun hne => absurd hcall hne, fun id' message hm => absurd (hnone.symm.trans hm) nofun⟩
  rw [← hlisted, ← account_call hcall id]

/-- **A call begins.** -/
theorem ProtocolInv.begin (op : ProtocolClientOp P) (huse : ProtocolUse service s (.begin op))
    (hfree : ProtocolFree s (.begin op)) :
    ∃ s', protocolClientBegin s op = .ok s' ∧ ProtocolInv service s' := by
  cases op with
  | new command async => exact ⟨_, rfl, h.new hnone command async⟩
  | opn id param =>
    obtain ⟨session, hsession, hopen, hqueued, htrack, hisOpen⟩ := huse
    exact h.openWait hcall hnone hsession hopen hqueued htrack hisOpen param
  | request id param =>
    obtain ⟨session, hsession, hqueued, hprc⟩ := huse
    exact h.requestWait hcall hnone hsession hqueued .prc param (.response id) rfl nofun (fun _ => hprc)
      (fun h => by rcases h with h | h <;> cases h) nofun nofun (fun h => absurd h Bool.false_ne_true) nofun
  | requestAsync id param =>
    obtain ⟨session, hsession, hasync, hqueued, hprc⟩ := huse
    obtain ⟨s', hs', hinv⟩ := h.requestAsync hcall hnone hsession hasync hqueued hprc param
    refine ⟨s', ?_, hinv⟩
    unfold protocolClientBegin
    simp only [getSession_ok hsession, bind, Except.bind, hasync, if_true]
    exact hs'
  | response id =>
    obtain ⟨session, hsession, hasync, hqueued⟩ := huse
    obtain ⟨s', hs', hinv⟩ := h.wait hcall hnone hsession hqueued
    refine ⟨s', ?_, hinv⟩
    unfold protocolClientBegin
    simp only [getSession_ok hsession, bind, Except.bind, hasync, if_true]
    exact hs'
  | close id =>
    obtain ⟨session, hsession, hopen, hqueued⟩ := huse
    obtain ⟨s', hs', hinv⟩ := h.requestWait hcall hnone hsession hqueued .cls none (.close id) rfl nofun
      nofun (fun _ => hopen) nofun (fun _ _ => rfl) (fun _ => hopen) nofun
    refine ⟨s', ?_, hinv⟩
    unfold protocolClientBegin
    simp only [getSession_ok hsession, bind, Except.bind, hopen, if_true]
    exact hs'
  | cancel id =>
    obtain ⟨session, hsession⟩ := Option.isSome_iff_exists.mp huse
    obtain ⟨s', hs', hinv⟩ := h.free hcall hnone hsession (mem_sessionList_iff.mp hfree.1) hfree.2
      false nofun false
    refine ⟨s', ?_, hinv⟩
    unfold protocolClientBegin
    simp only [getSession_ok hsession, bind, Except.bind]
    exact hs'
  | free id =>
    obtain ⟨session, hsession⟩ := Option.isSome_iff_exists.mp huse
    unfold protocolClientBegin
    simp only [getSession_ok hsession, bind, Except.bind]
    cases hcallback : session.callback with
    | true =>
      rw [if_pos rfl]
      have hlisted := (h.callback_iff hcall hsession).mp hcallback
      obtain ⟨s', hs', hinv⟩ := h.free hcall hnone hsession hlisted hfree session.callback (fun h => h) true
      rw [setSession_self hsession] at hs'
      exact ⟨s', hs', hinv⟩
    | false =>
      rw [if_neg Bool.false_ne_true]
      exact ⟨_, rfl, h.freeMemory hcall hnone hsession hcallback⟩
  | oneShot command param =>
    have hnew := h.new hnone command false
    have hsession : (protocolClientSessionNew s command false).session (s.client.sessionTotal + 1) =
        some
          { command := command, isOpen := false, queued := false, async := false, stored := false,
            close := false, message := .response none, callback := false } := Function.update_self _ _ _
    refine hnew.requestWait hcall hnone hsession rfl .prc param (.oneShot _) rfl nofun
      (fun _ => Or.inr ⟨rfl, huse⟩) (fun h => by rcases h with h | h <;> cases h) nofun nofun
      (fun h => absurd h Bool.false_ne_true) (fun _ _ => ⟨?_, rfl⟩)
    have hiff := hnew.callback_iff hcall hsession
    rw [← Bool.not_eq_true, ← hiff]
    exact Bool.false_ne_true

end

end Begin

/-! ## Reading a response -/

section Read

variable {service : ProtocolService W S P D} {s : ProtocolSystem W S P D} {id : ℕ}
  {session : ProtocolClientSession D} {response : ProtocolResponse D}
  {rest : List (ProtocolResponse D)}

theorem ProtocolAccount.Ok.channelAnswered {a : ProtocolAccount P D} (h : a.Ok service)
    (hresponse : a.response = response :: rest) :
    ∃ session, a.session = some session ∧ session.stored = false ∧ rest = [] ∧
      ProtocolAnswered a session response := by
  cases hsession : a.session with
  | none =>
    have hnil := (h.gone hsession).2.2.1
    rw [hresponse] at hnil
    cases hnil
  | some session =>
    have hwaiting : a.waiting = a.stored ++ response :: rest := by
      unfold ProtocolAccount.waiting
      rw [hresponse]
    have hne : ∀ {list : List (ProtocolResponse D)}, list ++ response :: rest ≠ [] := by simp
    rcases h.way session hsession with hquiet | ⟨request, hasked⟩ | ⟨other, hanswered⟩
    · exact absurd (hwaiting.symm.trans hquiet.waiting) hne
    · exact absurd (hwaiting.symm.trans hasked.waiting) hne
    · have hone := hwaiting.symm.trans hanswered.waiting
      cases hstored : session.stored with
      | true =>
        obtain ⟨-, hnil⟩ := h.storedAnswered hsession hstored
        rw [hresponse] at hnil
        cases hnil
      | false =>
        have hnil : a.stored = [] := by
          unfold ProtocolAccount.stored
          rw [hsession]
          dsimp only
          rw [hstored]
          rfl
        rw [hnil] at hone
        obtain ⟨rfl, hrest⟩ := cons.inj hone
        exact ⟨session, rfl, hstored, hrest, hanswered⟩

theorem protocolClientNext_cases (hnext : protocolClientNext s id = some (response, rest)) :
    ∃ session, s.session id = some session ∧
      ((session.stored = true ∧ response = ⟨id, session.close, session.message⟩ ∧ rest = s.response) ∨
        (session.stored = false ∧ s.response = response :: rest)) := by
  unfold protocolClientNext at hnext
  cases hsession : s.session id with
  | none =>
    rw [hsession] at hnext
    cases hnext
  | some session =>
    rw [hsession] at hnext
    dsimp only at hnext
    refine ⟨session, rfl, ?_⟩
    cases hstored : session.stored with
    | true =>
      rw [hstored, if_pos rfl] at hnext
      obtain ⟨hresponse, hrest⟩ := Prod.mk.inj (Option.some.inj hnext)
      exact Or.inl ⟨rfl, hresponse.symm, hrest.symm⟩
    | false =>
      rw [hstored, if_neg Bool.false_ne_true] at hnext
      cases hlist : s.response with
      | nil =>
        rw [hlist] at hnext
        cases hnext
      | cons first tail =>
        rw [hlist] at hnext
        obtain ⟨rfl, rfl⟩ := Prod.mk.inj (Option.some.inj hnext)
        exact Or.inr ⟨rfl, rfl⟩

/-- **The response of another session** is stored with it. -/
theorem ProtocolInv.store (h : ProtocolInv service s) (hcall : s.call.session = some id)
    (hresponse : s.response = response :: rest) (hother : response.sessionId ≠ id) :
    ∃ s', protocolClientSessionStore { s with response := rest } response = .ok s' ∧
      ProtocolInv service s' := by
  have hok := h.account response.sessionId
  obtain ⟨htouch, htail⟩ := touch_read s hresponse rfl
  obtain ⟨session, hsession, hstored, hnil, hanswered⟩ := hok.channelAnswered htail
  have hnocall : (s.account response.sessionId).call = .none := by
    show (if s.call.session = some response.sessionId then s.call else .none) = _
    rw [hcall, if_neg (fun heq => hother (Option.some.inj heq).symm)]
  have hbusy : s.result = none := by
    refine h.busy (fun hend => ?_)
    rw [hend] at hcall
    cases hcall
  -- the session is in the list since no call waits for it
  have hlisted : (s.account response.sessionId).listed = true := by
    rcases hok.queued session hsession hanswered.queued with hlisted | hin
    · exact hlisted
    · exact absurd hnocall hin
  have hset := touch_setSession { s with response := rest } response.sessionId
    (some { session with stored := true, close := response.close, message := response.message })
  rw [htouch.account] at hset
  have hfind := findIdx_ok (s := { s with response := rest }) (mem_sessionList_iff.mpr hlisted)
  have hget := getSession_ok (s := { s with response := rest }) hsession
  refine ⟨ProtocolSystem.setSession { s with response := rest } response.sessionId
    (some { session with stored := true, close := response.close, message := response.message }), ?_, ?_⟩
  · unfold protocolClientSessionStore
    simp only [hfind, hget, bind, Except.bind, hstored, Bool.false_eq_true, if_false]
  have hwaiting : ({ s.account response.sessionId with
      session := some
        { session with stored := true, close := response.close, message := response.message }
      response := (s.account response.sessionId).response.tail } : ProtocolAccount P D).waiting =
        [response] := by
    unfold ProtocolAccount.waiting ProtocolAccount.stored
    dsimp only
    rw [if_pos rfl, hnil]
    rfl
  refine h.touch (htouch.trans hset) ?_ (h.bounds _ session hsession) (fun hend => ?_) (fun _ => hbusy)
    (fun id' message hm => absurd (hbusy.symm.trans hm) nofun)
  · have htaken := hok.taken
    rw [hanswered.waiting, ← hwaiting] at htaken
    refine ⟨nofun, fun session' h' => Or.inr (Or.inr ⟨response, ?_⟩), fun hs => ?_, fun session' h' => ?_,
      fun session' h' => ?_, fun session' h' => ?_, fun session' h' => ?_, fun session' h' => ?_,
      fun session' h' => ?_, fun id' session' h' => ?_, hok.ending, hok.sent, htaken⟩
    · cases h'
      exact ⟨hanswered.queued, hanswered.onWay, hwaiting, hanswered.served, hanswered.cancel,
        hanswered.close⟩
    · obtain ⟨old, hold, hopen⟩ := hok.served hs
      rw [Option.some.inj (hold.symm.trans hsession)] at hopen
      exact ⟨_, rfl, hopen⟩
    · cases h'
      exact hok.command session hsession
    · cases h'
      exact hok.tracked session hsession
    · cases h'
      exact hok.callback session hsession
    · cases h'
      exact hok.listed session hsession
    · cases h'
      exact hok.queued session hsession
    · cases h'
      exact hok.calling session hsession
    · cases h'
      exact hok.oneShot id' session hsession
  · have hend : s.call = .none := hend
    rw [hend] at hcall
    cases hcall

/-- What is known when the response of a session was taken. -/
structure ProtocolTaken (service : ProtocolService W S P D) (s : ProtocolSystem W S P D) (id : ℕ)
    (session : ProtocolClientSession D) (response : ProtocolResponse D) : Prop
    extends ProtocolReady s id where
  rest : ProtocolRest service (s.account id) session
  waits : s.call.session = some id
  noResult : s.result = none
  last : (s.account id).taken.getLast? = some response
  tracked : session.async = true ∨ session.isOpen = true → (s.account id).listed = true
  callback : session.callback = true → (s.account id).listed = true
  listed : (s.account id).listed = true → session.callback = true ∨
    ∃ id memory, s.call = .freeQueued id memory ∨ s.call = .freeCancel id memory
  oneShot : ∀ id', s.call = .oneShot id' → (s.account id).listed = false ∧ session.isOpen = false
  ends : s.call.ends = true → (s.account id).listed = true
  cancel : ∀ id' memory, s.call = .freeCancel id' memory →
    session.isOpen = false ∧ response.message.isError = false
  close : ∀ id', s.call = .close id' → response.message.isError = false → session.isOpen = false
  free : s.call.freeing = true → response.message.isError = false

theorem ProtocolTaken.returned (h : ProtocolTaken service s id session response)
    (hcall : ∀ id' memory, s.call ≠ .freeQueued id' memory ∧ s.call ≠ .freeCancel id' memory) :
    ProtocolGood service s
      { s with call := .none, result := some (id, response.message) } id
      { s.account id with call := .none } := by
  have htouch := (touch_call s id .none h.call (Or.inl rfl) s.client.state).trans
    ((touch_result _ id (some (id, response.message))).of_eq
      (touch_call s id .none h.call (Or.inl rfl) s.client.state).account)
  refine ⟨htouch, ?_, fun _ => h.idle, fun hne => absurd rfl hne, fun id' message hm => ?_⟩
  · refine h.rest.quiet h.tracked ⟨h.callback, fun hlisted => ?_⟩
    rcases h.listed hlisted with hcallback | ⟨id', memory, hfree | hfree⟩
    · exact hcallback
    · exact absurd hfree (hcall id' memory).1
    · exact absurd hfree (hcall id' memory).2
  · obtain ⟨rfl, rfl⟩ := Prod.mk.inj (Option.some.inj hm)
    exact ⟨rfl, h.rest.onWay, h.rest.waiting, response, h.last, rfl⟩

/-- **The call goes on** after its response was taken. -/
theorem ProtocolTaken.good (h : ProtocolTaken service s id session response) :
    ∃ s' a, protocolClientSessionReturn s s.call id response.message = .ok s' ∧
      ProtocolGood service s s' id a := by
  have hsession : s.session id = some session := h.rest.found
  have hreturned : ProtocolReturned s id :=
    fun id' message hm => absurd (h.noResult.symm.trans hm) nofun
  unfold protocolClientSessionReturn
  simp only [getSession_ok hsession, bind, Except.bind]
  cases hcall : s.call with
  | none =>
    have hwaits := h.waits
    rw [hcall] at hwaits
    cases hwaits
  | response id' =>
    have hgood := h.returned (fun id memory => by rw [hcall]; exact ⟨nofun, nofun⟩)
    exact ⟨_, _, rfl, hgood⟩
  | oneShot id' =>
    obtain ⟨hlisted, hopen⟩ := h.oneShot id' hcall
    have hset := touch_setSession s id none
    have hend := touch_call (s.setSession id none) id .none h.call (Or.inl rfl) s.client.state
    rw [hset.account] at hend
    have htouch := (hset.trans hend).trans
      ((touch_result _ id (some (id, response.message))).of_eq hend.account)
    refine ⟨_, _, rfl, htouch, ?_, fun _ => h.idle, fun hne => absurd rfl hne, fun id' message hm => ?_⟩
    · have hgone := h.rest.gone hopen
      rw [← hlisted] at hgone
      exact hgone
    · obtain ⟨rfl, rfl⟩ := Prod.mk.inj (Option.some.inj hm)
      refine ⟨rfl, h.rest.onWay, ?_, response, h.last, rfl⟩
      show [] ++ (s.account id).response = []
      rw [h.rest.response]
      rfl
  | close id' =>
    cases hmessage : response.message with
    | error errRetry =>
      have hgood := h.returned (fun id memory => by rw [hcall]; exact ⟨nofun, nofun⟩)
      rw [hmessage] at hgood
      exact ⟨_, _, rfl, hgood⟩
    | response data =>
      have hopen := h.close id' hcall (by rw [hmessage]; rfl)
      have hlisted := h.ends (by rw [hcall]; rfl)
      rw [if_neg (by rw [hopen]; exact Bool.false_ne_true)]
      have hset := touch_setSession s id (some { session with callback := false })
      have hresult := touch_result (s.setSession id (some { session with callback := false })) id
        (some (id, .response data))
      rw [hset.account] at hresult
      have htouch := hset.trans hresult
      have hrest := h.rest.callback false
      rw [← htouch.account] at hrest
      have hready : ProtocolReady
          { s.setSession id (some { session with callback := false }) with
            result := some (id, .response data) } id := ⟨h.idle, h.nodup, h.call⟩
      have hlisted' : (ProtocolSystem.account
          { s.setSession id (some { session with callback := false }) with
            result := some (id, .response data) } id).listed = true := by
        rw [htouch.account]
        exact hlisted
      have hlast : ProtocolReturned
          { s.setSession id (some { session with callback := false }) with
            result := some (id, .response data) } id := by
        intro id'' message hm
        obtain ⟨rfl, rfl⟩ := Prod.mk.inj (Option.some.inj hm)
        refine ⟨rfl, response, ?_, hmessage⟩
        rw [htouch.account]
        exact h.last
      generalize ({ s.setSession id (some { session with callback := false }) with
        result := some (id, .response data) } : ProtocolSystem W S P D) = s₁ at *
      have hfound : s₁.session id = some { session with callback := false } := hrest.found
      obtain ⟨s', a, hs', hgood⟩ := protocolClientSessionRemove_good hready hrest hopen hlisted' hlast
      refine ⟨s', a, ?_, hgood.trans htouch⟩
      unfold protocolClientSessionFreeResource protocolClientSessionFreeOpen
      simp only [getSession_ok hfound, bind, Except.bind, h.rest.queued, hopen, Bool.false_eq_true,
        if_false]
      exact hs'
  | freeQueued id' memory =>
    cases hmessage : response.message with
    | error errRetry =>
      have herror := h.free (by rw [hcall]; rfl)
      rw [hmessage] at herror
      cases herror
    | response data =>
      exact protocolClientSessionFreeOpen_good h.toProtocolReady h.rest (h.ends (by rw [hcall]; rfl))
        hreturned (fun _ => h.noResult) memory
  | freeCancel id' memory =>
    obtain ⟨hopen, herror⟩ := h.cancel id' memory hcall
    cases hmessage : response.message with
    | error errRetry =>
      rw [hmessage] at herror
      cases herror
    | response data =>
      rw [hopen, if_neg Bool.false_ne_true]
      exact protocolClientSessionRemove_good h.toProtocolReady h.rest hopen
        (h.ends (by rw [hcall]; rfl)) hreturned

/-- What is read for the session itself is what is on the way for it. -/
theorem ProtocolInv.nextOwn (h : ProtocolInv service s)
    (hnext : protocolClientNext s id = some (response, rest)) (hown : response.sessionId = id) :
    ∃ session, s.session id = some session ∧ ProtocolAnswered (s.account id) session response ∧
      ProtocolTouch s { s with response := rest } id { s.account id with response := [] } := by
  have hok := h.account id
  obtain ⟨session, hsession, ⟨hstored, rfl, rfl⟩ | ⟨hstored, hlist⟩⟩ := protocolClientNext_cases hnext
  · obtain ⟨hanswered, hnil⟩ := hok.storedAnswered hsession hstored
    refine ⟨session, hsession, hanswered, (touch_result s id s.result).of_eq ?_⟩
    rw [← hnil]
  · obtain ⟨htouch, htail⟩ := touch_read s hlist hown
    obtain ⟨session', hsession', -, hnil, hanswered⟩ := hok.channelAnswered htail
    cases hsession.symm.trans hsession'
    refine ⟨session, hsession, hanswered, htouch.of_eq ?_⟩
    rw [hnil]

/-- **The session takes its response.** -/
theorem ProtocolInv.taken (h : ProtocolInv service s) (hcall : s.call.session = some id)
    (hnext : protocolClientNext s id = some (response, rest)) (hown : response.sessionId = id)
    (hfree : s.call.freeing = true → response.message.isError = false) :
    ∃ session session' a, s.session id = some session ∧
      ProtocolTaken service
        (protocolClientSessionTake { s with response := rest } id session response) id session' response ∧
      ProtocolTouch s (protocolClientSessionTake { s with response := rest } id session response) id a := by
  have hok := h.account id
  obtain ⟨session, hsession, hanswered, hread⟩ := h.nextOwn hnext hown
  have hacall : (s.account id).call = s.call := by
    show (if s.call.session = some id then s.call else .none) = _
    rw [if_pos hcall]
  have hbusy : s.result = none := by
    refine h.busy (fun hend => ?_)
    rw [hend] at hcall
    cases hcall
  let after := { session with
    stored := false, queued := false, isOpen := if response.close then false else session.isOpen }
  have hset := touch_setSession { s with response := rest } id (some after)
  rw [hread.account] at hset
  have hidle := touch_call (ProtocolSystem.setSession { s with response := rest } id (some after))
    id s.call (Or.inr hcall) (Or.inr hcall) .idle
  rw [hset.account] at hidle
  have htake := touch_taken { ProtocolSystem.setSession { s with response := rest } id (some after) with
    client := { s.client with state := .idle } } id response hown
  have hidle' := hidle.account
  dsimp only [ProtocolSystem.setSession] at hidle' htake
  rw [hidle'] at htake
  have htouch : ProtocolTouch s
      (protocolClientSessionTake { s with response := rest } id session response) id
      { s.account id with
        session := some after, response := [], taken := (s.account id).taken ++ [response] } :=
    (((hread.trans hset).trans hidle).trans htake).of_eq (by dsimp only; rw [hacall])
  have hopen : ∀ {b c : Bool}, (if b then false else c) = true → c = true := by decide
  refine ⟨session, after, _, hsession, ⟨⟨rfl, h.nodup, Or.inr hcall⟩, ?_, hcall, hbusy, ?_, fun ht => ?_,
    fun hcb => ?_, fun hlisted => ?_, fun id' hone => ?_, fun hends => ?_, fun id' memory hc => ?_,
    fun id' hc herror => ?_, hfree⟩, htouch⟩
  · rw [htouch.account]
    exact hok.take hsession hanswered after rfl rfl rfl rfl rfl
  · rw [htouch.account]
    exact getLast?_concat
  · rw [htouch.account]
    exact hok.tracked session hsession (ht.imp (fun h => h) hopen)
  · rw [htouch.account]
    exact hok.callback session hsession hcb
  · rw [htouch.account] at hlisted
    have hold := hok.listed session hsession hlisted
    rwa [hacall] at hold
  · rw [htouch.account]
    obtain ⟨hlisted, hclosed⟩ := hok.oneShot id' session hsession (hacall.trans hone)
    refine ⟨hlisted, ?_⟩
    show (if response.close then false else session.isOpen) = false
    rw [hclosed, ite_self]
  · rw [htouch.account]
    exact hok.ending (by rw [hacall]; exact hends)
  · obtain ⟨hclose, herror⟩ := hanswered.cancel id' memory (hacall.trans hc)
    refine ⟨?_, herror⟩
    show (if response.close then false else session.isOpen) = false
    rw [hclose, if_pos rfl]
  · show (if response.close then false else session.isOpen) = false
    rw [hanswered.close id' (hacall.trans hc) herror, if_pos rfl]

/-- **A response is read.** -/
theorem ProtocolInv.read {s' : ProtocolSystem W S P D} (h : ProtocolInv service s)
    (hfree : ProtocolFree s (.read : ProtocolEvent P))
    (hstep : protocolStep service s .read = some s') : ProtocolInv service s' := by
  unfold protocolStep at hstep
  rw [if_pos (by rw [h.failed]; rfl)] at hstep
  obtain ⟨id, hcall, hstep⟩ := Option.bind_eq_some_iff.mp hstep
  obtain ⟨⟨response, rest⟩, hnext, hstep⟩ := Option.bind_eq_some_iff.mp hstep
  cases hstep
  have hbounds : response.sessionId = id → 1 ≤ id := by
    intro hown
    obtain ⟨session, hsession, -⟩ := h.nextOwn hnext hown
    exact (h.bounds id session hsession).1
  by_cases hown : response.sessionId = id
  · obtain ⟨session, session', a, hsession, htaken, htouch⟩ :=
      h.taken hcall hnext hown (fun hf => hfree id hcall _ hnext hf hown)
    obtain ⟨s', b, hs', hgood⟩ := htaken.good
    have hread : protocolClientResponseRead { s with response := rest } id response = .ok s' := by
      unfold protocolClientResponseRead
      have hne : response.sessionId ≠ 0 := by
        omega
      have hget := getSession_ok (s := { s with response := rest }) hsession
      rw [if_neg (by simp [hne]), if_neg (fun hand => hand.2 hown)]
      simp only [hget, bind, Except.bind]
      exact hs'
    rw [hread]
    exact h.good hsession (hgood.trans htouch)
  · -- the first response of the channel is of another session
    obtain ⟨session, -, ⟨-, rfl, -⟩ | ⟨-, hlist⟩⟩ := protocolClientNext_cases hnext
    · exact absurd rfl hown
    · obtain ⟨s', hs', hinv⟩ := h.store hcall hlist hown
      have hok := h.account response.sessionId
      obtain ⟨-, htail⟩ := touch_read s hlist rfl
      obtain ⟨other, hother, -⟩ := hok.channelAnswered htail
      have hpos := (h.bounds _ other hother).1
      have hread : protocolClientResponseRead { s with response := rest } id response = .ok s' := by
        unfold protocolClientResponseRead
        have hne : response.sessionId ≠ 0 := by omega
        rw [if_neg (by simp [hne]), if_pos ⟨hne, hown⟩]
        exact hs'
      rw [hread]
      exact hinv

end Read

/-! ## When a session is removed -/

section Return

variable {s s' : ProtocolSystem W S P D} {id : ℕ}

/-- The session that is freed, cancelled or closed in a step. -/
def ProtocolSystem.ends (s : ProtocolSystem W S P D) : ProtocolEvent P → Option ℕ
  | .begin (.cancel id) => some id
  | .begin (.free id) => some id
  | .read => if s.call.ends then s.call.session else none
  | _ => none

theorem protocolClientSessionRemove_session (h : protocolClientSessionRemove s id = .ok s') :
    s'.session id = none := by
  obtain ⟨sessionIdx, hfind, h⟩ := ok_of_bind h
  cases h
  exact Function.update_self _ _ _

theorem protocolClientResponseInternal_call {call : ProtocolClientCall}
    (h : protocolClientResponseInternal s call id = .ok s') : s'.call = call := by
  obtain ⟨session, -, h⟩ := ok_of_bind h
  obtain ⟨-, -, h⟩ := ok_of_bind h
  cases h
  rfl

theorem protocolClientSessionFreeOpen_session {memory : Bool}
    (h : protocolClientSessionFreeOpen s id memory = .ok s') (hcall : s'.call = .none) :
    s'.session id = none := by
  obtain ⟨session, hget, h⟩ := ok_of_bind h
  split at h
  · obtain ⟨s₁, hrequest, h⟩ := ok_of_bind h
    have hwait := protocolClientResponseInternal_call h
    rw [hcall] at hwait
    cases hwait
  · exact protocolClientSessionRemove_session h

theorem protocolClientSessionFreeResource_session {memory : Bool}
    (h : protocolClientSessionFreeResource s id memory = .ok s') (hcall : s'.call = .none) :
    s'.session id = none := by
  obtain ⟨session, hget, h⟩ := ok_of_bind h
  split at h
  · split at h
    · exact protocolClientSessionFreeOpen_session h hcall
    · have hwait := protocolClientResponseInternal_call h
      rw [hcall] at hwait
      cases hwait
  · exact protocolClientSessionFreeOpen_session h hcall

theorem protocolClientSessionStore_call {response : ProtocolResponse D}
    (h : protocolClientSessionStore s response = .ok s') : s'.call = s.call := by
  obtain ⟨sessionIdx, -, h⟩ := ok_of_bind h
  obtain ⟨session, -, h⟩ := ok_of_bind h
  split at h
  · cases h
  · cases h
    rfl

theorem protocolClientSessionReturn_session {call : ProtocolClientCall} {message : ProtocolMessage D}
    (hends : call.ends = true) (h : protocolClientSessionReturn s call id message = .ok s')
    (hcall : s'.call = .none)
    (hresult : ∀ message, s'.result = some (id, message) → message.isError = false) :
    s'.session id = none := by
  obtain ⟨session, hget, h⟩ := ok_of_bind h
  have herror : ∀ errRetry, s'.result ≠ some (id, .error errRetry) :=
    fun errRetry heq => absurd (hresult _ heq) nofun
  cases call with
  | none => cases hends
  | response id' => cases hends
  | oneShot id' => cases hends
  | close id' =>
    cases message with
    | error errRetry =>
      cases h
      exact absurd rfl (herror errRetry)
    | response data =>
      dsimp only at h
      split at h
      · cases h
      · exact protocolClientSessionFreeResource_session h hcall
  | freeQueued id' memory =>
    cases message with
    | error errRetry =>
      cases h
      exact absurd rfl (herror errRetry)
    | response data => exact protocolClientSessionFreeOpen_session h hcall
  | freeCancel id' memory =>
    cases message with
    | error errRetry =>
      cases h
      exact absurd rfl (herror errRetry)
    | response data =>
      dsimp only at h
      split at h
      · cases h
      · exact protocolClientSessionRemove_session h

theorem ProtocolSystem.after_ok {result : Except Error (ProtocolSystem W S P D)}
    (h : (s.after result).failed = none) : result = .ok (s.after result) := by
  cases result with
  | error error => cases h
  | ok this => rfl

/-- **When free, cancel or close returns, the session is removed.** -/
theorem protocolStep_ends {service : ProtocolService W S P D} {event : ProtocolEvent P}
    (hstep : protocolStep service s event = some s') (hends : s.ends event = some id)
    (hfailed : s'.failed = none) (hcall : s'.call = .none)
    (hresult : ∀ message, s'.result = some (id, message) → message.isError = false) :
    s'.session id = none := by
  unfold protocolStep at hstep
  cases event with
  | server => cases hends
  | read =>
    obtain ⟨hcallEnds, hsession⟩ := Option.ite_none_right_eq_some.mp hends
    dsimp only at hstep
    obtain ⟨-, hstep⟩ := Option.ite_none_right_eq_some.mp hstep
    obtain ⟨id', hid', hstep⟩ := Option.bind_eq_some_iff.mp hstep
    obtain ⟨⟨response, rest⟩, -, hstep⟩ := Option.bind_eq_some_iff.mp hstep
    obtain rfl := Option.some.inj (hid'.symm.trans hsession)
    cases hstep
    have hread := ProtocolSystem.after_ok hfailed
    generalize s.after (protocolClientResponseRead { s with response := rest } id' response) = t at hread hcall hresult ⊢
    unfold protocolClientResponseRead at hread
    split at hread
    · cases hread
    · split at hread
      · have hsame := protocolClientSessionStore_call hread
        rw [hcall] at hsame
        have hnone : s.call = .none := hsame.symm
        rw [hnone] at hcallEnds
        cases hcallEnds
      · obtain ⟨session, hget, hread⟩ := ok_of_bind hread
        exact protocolClientSessionReturn_session hcallEnds hread hcall hresult
  | begin op =>
    obtain ⟨-, hstep⟩ := Option.ite_none_right_eq_some.mp hstep
    cases hstep
    have hbegin := ProtocolSystem.after_ok hfailed
    generalize s.after (protocolClientBegin { s with result := none } op) = t at hbegin hcall hresult ⊢
    cases op with
    | cancel id' =>
      cases hends
      unfold protocolClientBegin at hbegin
      obtain ⟨session, hget, hbegin⟩ := ok_of_bind hbegin
      exact protocolClientSessionFreeResource_session hbegin hcall
    | free id' =>
      cases hends
      unfold protocolClientBegin at hbegin
      obtain ⟨session, hget, hbegin⟩ := ok_of_bind hbegin
      split at hbegin
      · exact protocolClientSessionFreeResource_session hbegin hcall
      · cases hbegin
        exact Function.update_self _ _ _
    | new _ _ => cases hends
    | opn _ _ => cases hends
    | request _ _ => cases hends
    | requestAsync _ _ => cases hends
    | response _ => cases hends
    | close _ => cases hends
    | oneShot _ _ => cases hends

end Return

/-! ## The result -/

section Result

variable {service : ProtocolService W S P D} {s s' : ProtocolSystem W S P D}

/-- **One step.** -/
theorem ProtocolInv.step (h : ProtocolInv service s) {event : ProtocolEvent P}
    (huse : ProtocolUse service s event) (hfree : ProtocolFree s event)
    (hstep : protocolStep service s event = some s') : ProtocolInv service s' := by
  cases event with
  | server => exact h.server hstep
  | read => exact h.read hfree hstep
  | begin op =>
    unfold protocolStep at hstep
    obtain ⟨⟨-, hcall⟩, hstep⟩ := Option.ite_none_right_eq_some.mp hstep
    have huse' : ProtocolUse service { s with result := none } (.begin op) := by
      cases op
      all_goals exact huse
    have hfree' : ProtocolFree { s with result := none } (.begin op) := by
      cases op
      all_goals exact hfree
    obtain ⟨t, ht, hinv⟩ := h.reset.begin hcall rfl op huse' hfree'
    rw [ht] at hstep
    cases hstep
    exact hinv

/-- Nothing is on the way before the first call. -/
theorem protocolInv_new (world : W) : ProtocolInv service (protocolClientNew (P := P) (S := S) (D := D) world) := by
  refine ⟨rfl, rfl, fun _ => rfl, fun h => absurd rfl h, fun _ _ h => ?_, nodup_nil, nodup_nil, rfl,
    fun id => ?_, fun _ _ h => ?_⟩
  · cases h
  rotate_left
  · cases h
  have hgone : (protocolClientNew (P := P) (S := S) (D := D) world).account id =
      ⟨id, none, false, [], [], false, [], [], [], .none⟩ := by
    simp [ProtocolSystem.account, protocolClientNew, ProtocolServer.sessionIdList,
      ProtocolClientCall.session]
  rw [hgone]
  refine ⟨fun _ => ⟨rfl, rfl, rfl, rfl, rfl⟩, fun _ h => ?_, fun h => ?_, fun _ h => ?_, fun _ h => ?_,
    fun _ h => ?_, fun _ h => ?_, fun _ h => ?_, fun _ h => ?_, fun _ _ h => ?_, fun h => ?_, rfl, rfl⟩
  all_goals cases h

/-- **What a state of the sessions must be like.** -/
structure ProtocolSessionsOk (service : ProtocolService W S P D) (s : ProtocolSystem W S P D) :
    Prop where
  /-- No `ASSERT` or `CHECK` failed. -/
  failed : s.failed = none
  /-- The client is idle when a call has returned. -/
  idle : s.call = .none → s.client.state = .idle
  /-- A call that waits will have its response. -/
  live : s.call ≠ .none → ∃ event s', (event = .read ∨ event = .server) ∧
    protocolStep service s event = some s'
  /-- Each request is processed once. -/
  handled : s.sent = s.handled.map Prod.fst ++ s.request
  /-- Each response is taken once, by its session, in order. -/
  taken : ∀ id, (s.account id).taken ++ (s.account id).waiting = (s.account id).handled.map Prod.snd
  /-- What was returned or thrown is the response to the latest request. -/
  latest : ∀ id message, s.result = some (id, message) → ∃ request response,
    (s.account id).sent.getLast? = some request ∧
      (s.account id).handled.getLast? = some (request, response) ∧
      (s.account id).taken.getLast? = some response ∧ response.message = message
  /-- Nothing is left of a session that was freed, cancelled or closed. -/
  gone : ∀ id, s.session id = none → id ∉ s.client.sessionList ∧ (s.account id).request = [] ∧
    (s.account id).waiting = [] ∧ id ∉ s.server.sessionIdList
  /-- When such a call returns, the session is gone. -/
  returns : ∀ event s' id, protocolStep service s event = some s' → ProtocolUse service s event →
    ProtocolFree s event → s.ends event = some id → s'.call = .none →
    (∀ message, s'.result = some (id, message) → message.isError = false) → s'.session id = none

theorem ProtocolInv.live (h : ProtocolInv service s) (hcall : s.call ≠ .none) :
    ∃ event s', (event = .read ∨ event = .server) ∧ protocolStep service s event = some s' := by
  have hid : ∃ id, s.call.session = some id := by
    cases hc : s.call with
    | none => exact absurd hc hcall
    | response id => exact ⟨id, rfl⟩
    | oneShot id => exact ⟨id, rfl⟩
    | close id => exact ⟨id, rfl⟩
    | freeQueued id memory => exact ⟨id, rfl⟩
    | freeCancel id memory => exact ⟨id, rfl⟩
  obtain ⟨id, hid⟩ := hid
  have hacall : (s.account id).call = s.call := by
    show (if s.call.session = some id then s.call else .none) = _
    rw [if_pos hid]
  have hok := h.account id
  cases hsession : (s.account id).session with
  | none => exact absurd (hacall.symm.trans (hok.gone hsession).2.2.2.2) hcall
  | some session =>
    have hfound : s.session id = some session := hsession
    have hqueued := hok.calling session hsession (by rw [hacall]; exact hcall)
    rcases hok.way session hsession with hquiet | ⟨request, hasked⟩ | ⟨response, hanswered⟩
    · cases hquiet.queued.symm.trans hqueued
    · -- the request is on the way to the server
      have hmem : request ∈ (s.account id).request := by
        rw [hasked.onWay]
        exact mem_singleton_self _
      have hmem := (mem_filter.mp hmem).1
      cases hrequest : s.request with
      | nil =>
        rw [hrequest] at hmem
        cases hmem
      | cons first rest =>
        have hsome : (protocolStep service s .server).isSome = true := by
          unfold protocolStep
          rw [hrequest]
          dsimp only
          rw [h.exit, if_neg Bool.false_ne_true]
          rfl
        obtain ⟨s', hs'⟩ := Option.isSome_iff_exists.mp hsome
        exact ⟨.server, s', Or.inr rfl, hs'⟩
    · -- its response is stored or on the way to the client
      have hnext : ∃ next, protocolClientNext s id = some next := by
        unfold protocolClientNext
        rw [hfound]
        dsimp only
        cases hstored : session.stored with
        | true => exact ⟨_, rfl⟩
        | false =>
          cases hlist : s.response with
          | cons first rest => exact ⟨_, rfl⟩
          | nil =>
            have hnil : (s.account id).waiting = [] := by
              unfold ProtocolAccount.waiting ProtocolAccount.stored
              rw [hsession]
              dsimp only
              rw [hstored]
              simp [ProtocolSystem.account, hlist]
            rw [hanswered.waiting] at hnil
            cases hnil
      obtain ⟨⟨next, rest⟩, hnext⟩ := hnext
      refine ⟨.read, s.after (protocolClientResponseRead { s with response := rest } id next), Or.inl rfl, ?_⟩
      unfold protocolStep
      rw [if_pos (by rw [h.failed]; rfl), hid]
      simp only [Option.bind_eq_bind, Option.bind_some, hnext]

theorem ProtocolInv.sessionsOk (h : ProtocolInv service s) : ProtocolSessionsOk service s := by
  refine ⟨h.failed, h.idle, h.live, h.order, fun id => (h.account id).taken, fun id message hresult => ?_,
    fun id hnone => ?_, fun event s' id hstep huse hfree hends hcall hresult => ?_⟩
  · obtain ⟨honWay, hwaiting, response, hlast, hmessage⟩ := h.result id message hresult
    have hsent := (h.account id).sent
    have htaken := (h.account id).taken
    rw [honWay, append_nil] at hsent
    rw [hwaiting, append_nil] at htaken
    rw [htaken, getLast?_map] at hlast
    obtain ⟨⟨request, response'⟩, hhandled, rfl⟩ := Option.map_eq_some_iff.mp hlast
    refine ⟨request, response', ?_, hhandled, ?_, hmessage⟩
    · rw [hsent, getLast?_map, hhandled]
      rfl
    · rw [htaken, getLast?_map, hhandled]
      rfl
  · obtain ⟨hlisted, honWay, hresponse, hserved, -⟩ := (h.account id).gone hnone
    refine ⟨of_decide_eq_false hlisted, honWay, ?_, of_decide_eq_false hserved⟩
    unfold ProtocolAccount.waiting ProtocolAccount.stored
    rw [show (s.account id).session = none from hnone, hresponse]
    rfl
  · have hinv := h.step huse hfree hstep
    exact protocolStep_ends hstep hends hinv.failed hcall hresult

/-- **Sessions never mix up or lose messages.** This holds in every state that the
documented use reaches, from the first call on, as long as sessions are freed
when that is right. -/
theorem protocolSessions_ok (service : ProtocolService W S P D) (world : W)
    (events : List (ProtocolEvent P)) {t : ProtocolSystem W S P D}
    (huse : Steps.Meets (protocolStep service) (ProtocolUse service) (protocolClientNew world) events)
    (hfree : Steps.Meets (protocolStep service) ProtocolFree (protocolClientNew world) events)
    (hrun : Steps.run (protocolStep service) (protocolClientNew world) events = some t) :
    ProtocolSessionsOk service t := by
  have hmeets := Steps.meets_and huse hfree
  have hinv : ProtocolInv service t :=
    Steps.run_invariant_of_meets (fun s event s' hs hcond hstep => hs.step hcond.1 hcond.2 hstep) events
      (protocolInv_new world) hmeets hrun
  exact hinv.sessionsOk

/-! ## A server with one handler -/

instance decidableExistsSome {α : Type} {p : α → Prop} [DecidablePred p] :
    ∀ o : Option α, Decidable (∃ a, o = some a ∧ p a)
  | none => isFalse (fun h => by obtain ⟨a, ha, -⟩ := h; cases ha)
  | some a => decidable_of_iff (p a)
      ⟨fun h => ⟨a, rfl, h⟩, fun ⟨_, ha, h⟩ => Option.some.inj ha ▸ h⟩

instance decidableForallSome {α : Type} {p : α → Prop} [DecidablePred p] :
    ∀ o : Option α, Decidable (∀ a, o = some a → p a)
  | none => isTrue nofun
  | some a => decidable_of_iff (p a)
      ⟨fun h _ ha => Option.some.inj ha ▸ h, fun h => h a rfl⟩

section Decidable

variable (service : ProtocolService W S P D) (s : ProtocolSystem W S P D)

instance (command : Str) : Decidable (service.IsSession command) := decidableExistsSome _

instance (command : Str) : Decidable (service.IsOpen command) := decidableExistsSome _

instance (command : Str) : Decidable (service.IsStandalone command) :=
  inferInstanceAs (Decidable (_ ∨ _))

instance (session : ProtocolClientSession D) : Decidable (session.Processes service) :=
  inferInstanceAs (Decidable (_ ∨ _))

instance decidableProtocolUse : ∀ event, Decidable (ProtocolUse service s event)
  | .begin (.new _ _) => isTrue trivial
  | .begin (.opn id _) => decidableExistsSome (s.session id)
  | .begin (.request id _) => decidableExistsSome (s.session id)
  | .begin (.requestAsync id _) => decidableExistsSome (s.session id)
  | .begin (.response id) => decidableExistsSome (s.session id)
  | .begin (.close id) => decidableExistsSome (s.session id)
  | .begin (.cancel id) => inferInstanceAs (Decidable ((s.session id).isSome = true))
  | .begin (.free id) => inferInstanceAs (Decidable ((s.session id).isSome = true))
  | .begin (.oneShot command _) => inferInstanceAs (Decidable (service.IsStandalone command))
  | .read => isTrue trivial
  | .server => isTrue trivial

instance (id : ℕ) : Decidable (ProtocolFreeable s id) := decidableForallSome (s.session id)

instance decidableProtocolFree : ∀ event : ProtocolEvent P, Decidable (ProtocolFree s event)
  | .begin (.cancel id) => inferInstanceAs (Decidable (id ∈ s.client.sessionList ∧ ProtocolFreeable s id))
  | .begin (.free id) => inferInstanceAs (Decidable (ProtocolFreeable s id))
  | .read => inferInstanceAs (Decidable (∀ id ∈ s.call.session, ∀ next ∈ protocolClientNext s id,
      s.call.freeing = true → next.1.sessionId = id → next.1.message.isError = false))
  | .begin (.new _ _) | .begin (.opn _ _) | .begin (.request _ _) | .begin (.requestAsync _ _)
  | .begin (.response _) | .begin (.close _) | .begin (.oneShot _ _) | .server => isTrue trivial

end Decidable

/-- A handler that reads a file: it returns one number after another, and an
error after the fifth. -/
def protocolHandlerSample : ProtocolServerHandler ℕ Unit Unit ℕ where
  command := "storage-read".toList
  opn := some
    { call := fun _ _ block => (.ok ⟨some (), some block, false⟩, block + 1)
      result := fun _ _ _ result h => by obtain rfl := Except.ok.inj h; rfl
      error := nofun }
  process := none
  processSession := some
    { call := fun _ _ block =>
        if block < 5 then (.ok ⟨none, some block, false⟩, block + 1)
        else (.error ⟨.fileReadError, "unable to read".toList⟩, block)
      result := fun _ _ block result h => by
        split at h
        · cases h
          rfl
        · cases h
      error := fun _ _ block error h => by
        split at h
        · cases h
        · obtain rfl := Except.error.inj h
          rfl }
  cls := none
  kind := rfl
  kind_opn := fun _ => rfl

/-- A server with this handler, which does not retry. -/
def protocolServiceSample : ProtocolService ℕ Unit Unit ℕ := ⟨[protocolHandlerSample], 0⟩

/-- A session is opened and asks for the next block; another request finds the
block and stores it. -/
def protocolStoredSample : List (ProtocolEvent Unit) :=
  [.begin (.new "storage-read".toList true), .begin (.opn 1 none), .server, .read,
    .begin (.requestAsync 1 none), .server, .begin (.oneShot "noop".toList none), .server, .read, .read]

/-- The session takes the stored response, asks again and is cancelled. -/
def protocolCancelSample : List (ProtocolEvent Unit) :=
  protocolStoredSample ++ [.begin (.response 1), .read, .begin (.requestAsync 1 none),
    .begin (.cancel 1), .server, .read, .server, .read]

theorem protocolSessions_ok_sample :
    ∃ t, Steps.run (protocolStep protocolServiceSample) (protocolClientNew 0) protocolCancelSample = some t ∧
      t.call = .none ∧ t.session 1 = none ∧ t.taken.length = 5 ∧
      ProtocolSessionsOk protocolServiceSample t := by
  have hdone : (Steps.run (protocolStep protocolServiceSample) (protocolClientNew 0)
      protocolCancelSample).map (fun t => (t.call, (t.session 1).isNone, t.taken.length)) =
        some (.none, true, 5) := by decide +kernel
  obtain ⟨t, hrun, hlast⟩ := Option.map_eq_some_iff.mp hdone
  injection hlast with hcall hlast
  injection hlast with hsession htaken
  refine ⟨t, hrun, hcall, Option.isNone_iff_eq_none.mp hsession, htaken, ?_⟩
  exact protocolSessions_ok protocolServiceSample 0 protocolCancelSample (by decide +kernel)
    (by decide +kernel) hrun

/-- An open session with a stored response cannot be freed. The request to cancel
it fails an assertion. -/
theorem protocolSessions_stored_fail :
    Steps.Meets (protocolStep protocolServiceSample) (ProtocolUse protocolServiceSample)
        (protocolClientNew 0) (protocolStoredSample ++ [.begin (.free 1)]) ∧
      ∃ t, Steps.run (protocolStep protocolServiceSample) (protocolClientNew 0)
          (protocolStoredSample ++ [.begin (.free 1)]) = some t ∧
        t.failed = some (assertFailed "!protocolClientSessionQueued(this)") ∧
        ¬ ProtocolSessionsOk protocolServiceSample t := by
  refine ⟨by decide +kernel, ?_⟩
  have hdone : (Steps.run (protocolStep protocolServiceSample) (protocolClientNew 0)
      (protocolStoredSample ++ [.begin (.free 1)])).map ProtocolSystem.failed =
        some (some (assertFailed "!protocolClientSessionQueued(this)")) := by decide +kernel
  obtain ⟨t, hrun, hfailed⟩ := Option.map_eq_some_iff.mp hdone
  refine ⟨t, hrun, hfailed, fun hok => ?_⟩
  rw [hok.failed] at hfailed
  cases hfailed

end Result

end PgxBackup
