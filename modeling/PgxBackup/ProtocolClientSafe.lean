import PgxBackup.ProtocolClient
import PgxBackup.ProtocolServerSafe

/-!
# The account of a session

What concerns a session is spread over the client, the channels and the server:
its flags, its request or its response on the way, the response that another
session stored, the data that the server has. The **account** of a session is
all of it together. A step changes the account of one session only, so that it
is enough to look at that one.

At most one request or response of a session is on its way, exactly when the
session is queued; the server has data only for a session that is open at the
client.
-/

namespace PgxBackup

open List

variable {W S P D : Type}

/-- What concerns a session. -/
structure ProtocolAccount (P D : Type) where
  id : ℕ
  session : Option (ProtocolClientSession D)
  /-- It is in the list of the client. -/
  listed : Bool
  request : List (ProtocolRequest P)
  response : List (ProtocolResponse D)
  /-- The server has data for it. -/
  served : Bool
  sent : List (ProtocolRequest P)
  handled : List (ProtocolRequest P × ProtocolResponse D)
  taken : List (ProtocolResponse D)
  /-- The call that waits for it. -/
  call : ProtocolClientCall

def ProtocolSystem.account (s : ProtocolSystem W S P D) (id : ℕ) : ProtocolAccount P D where
  id := id
  session := s.session id
  listed := id ∈ s.client.sessionList
  request := s.request.filter (fun request => request.sessionId = id)
  response := s.response.filter (fun response => response.sessionId = id)
  served := id ∈ s.server.sessionIdList
  sent := s.sent.filter (fun request => request.sessionId = id)
  handled := s.handled.filter (fun entry => entry.1.sessionId = id)
  taken := s.taken.filter (fun response => response.sessionId = id)
  call := if s.call.session = some id then s.call else .none

def ProtocolAccount.stored (a : ProtocolAccount P D) : List (ProtocolResponse D) :=
  match a.session with
  | some session => if session.stored then [⟨a.id, session.close, session.message⟩] else []
  | none => []

/-- The responses that were not taken. -/
def ProtocolAccount.waiting (a : ProtocolAccount P D) : List (ProtocolResponse D) :=
  a.stored ++ a.response

/-! ## Steps that touch one session -/

/-- **Only the account of one session changes.** -/
structure ProtocolTouch (s s' : ProtocolSystem W S P D) (id : ℕ) (a : ProtocolAccount P D) : Prop where
  account : s'.account id = a
  others : ∀ id' ≠ id, s'.account id' = s.account id'
  server : s'.server = s.server
  failed : s'.failed = s.failed
  sessionTotal : s'.client.sessionTotal = s.client.sessionTotal
  nodup : s.client.sessionList.Nodup → s'.client.sessionList.Nodup
  order : s.sent = s.handled.map Prod.fst ++ s.request →
    s'.sent = s'.handled.map Prod.fst ++ s'.request

section Touch

variable {s s' s'' : ProtocolSystem W S P D} {id : ℕ} {a b : ProtocolAccount P D}

theorem ProtocolTouch.trans (h : ProtocolTouch s s' id a) (h' : ProtocolTouch s' s'' id b) :
    ProtocolTouch s s'' id b :=
  ⟨h'.account, fun id' hne => (h'.others id' hne).trans (h.others id' hne),
    h'.server.trans h.server, h'.failed.trans h.failed, h'.sessionTotal.trans h.sessionTotal,
    fun hs => h'.nodup (h.nodup hs), fun hs => h'.order (h.order hs)⟩

theorem ProtocolTouch.of_eq (h : ProtocolTouch s s' id a) (hab : a = b) : ProtocolTouch s s' id b :=
  hab ▸ h

section

variable (s : ProtocolSystem W S P D)

theorem touch_setSession (id : ℕ) (session : Option (ProtocolClientSession D)) :
    ProtocolTouch s (s.setSession id session) id { s.account id with session := session } := by
  refine ⟨?_, fun id' hne => ?_, rfl, rfl, rfl, fun h => h, fun h => h⟩
  · unfold ProtocolSystem.account ProtocolSystem.setSession
    simp only [Function.update_self]
  · unfold ProtocolSystem.account ProtocolSystem.setSession
    simp only [Function.update_of_ne hne]

theorem touch_send (request : ProtocolRequest P) (hid : request.sessionId = id) :
    ProtocolTouch s { s with request := s.request ++ [request], sent := s.sent ++ [request] } id
      { s.account id with
        request := (s.account id).request ++ [request]
        sent := (s.account id).sent ++ [request] } := by
  refine ⟨?_, fun id' hne => ?_, rfl, rfl, rfl, fun h => h, fun h => ?_⟩
  · unfold ProtocolSystem.account
    simp [filter_append, hid]
  · unfold ProtocolSystem.account
    simp [filter_append, hid, Ne.symm hne]
  · dsimp only at h ⊢
    rw [h, append_assoc]

/-- A call begins to wait for the session, or ends. -/
theorem touch_call (id : ℕ) (call : ProtocolClientCall)
    (hs : s.call.session = none ∨ s.call.session = some id)
    (hcall : call.session = none ∨ call.session = some id) (state : ProtocolClientState) :
    ProtocolTouch s { s with client := { s.client with state := state }, call := call } id
      { s.account id with call := call } := by
  refine ⟨?_, fun id' hne => ?_, rfl, rfl, rfl, fun h => h, fun h => h⟩
  · unfold ProtocolSystem.account
    rcases hcall with hcall | hcall
    · have hnone : call = .none := by
        cases call
        case none => rfl
        all_goals cases hcall
      rw [hnone]
      rfl
    · rw [if_pos hcall]
  · have hother : ∀ {o : Option ℕ}, o = none ∨ o = some id → o ≠ some id' := by
      rintro o (rfl | rfl) h
      · cases h
      · exact hne (Option.some.inj h).symm
    unfold ProtocolSystem.account
    rw [if_neg (hother hcall), if_neg (hother hs)]

theorem touch_list_append (hid : id ∉ s.client.sessionList) :
    ProtocolTouch s
      { s with client := { s.client with sessionList := s.client.sessionList ++ [id] } } id
      { s.account id with listed := true } := by
  refine ⟨?_, fun id' hne => ?_, rfl, rfl, rfl, fun h => ?_, fun h => h⟩
  · unfold ProtocolSystem.account
    simp
  · unfold ProtocolSystem.account
    simp [hne]
  · exact nodup_append.mpr ⟨h, nodup_singleton _, fun x hx y hy heq => by
      rw [mem_singleton.mp hy] at heq
      exact hid (heq ▸ hx)⟩

theorem touch_list_remove (id : ℕ) (hnodup : s.client.sessionList.Nodup) :
    ProtocolTouch s
      { s with
        client :=
          { s.client with
            sessionList := s.client.sessionList.eraseIdx
              (s.client.sessionList.findIdx (fun id' => id' = id)) } } id
      { s.account id with listed := false } := by
  have hmap : (s.client.sessionList.map (fun id => id)).Nodup := by rwa [map_id']
  have herase := Keyed.eraseIdx_findIdx (fun id' => id') hmap id
  refine ⟨?_, fun id' hne => ?_, rfl, rfl, rfl, fun h => ?_, fun h => h⟩
  · unfold ProtocolSystem.account
    rw [herase]
    simp
  · unfold ProtocolSystem.account
    rw [herase]
    simp [hne]
  · dsimp only
    rw [herase]
    exact h.filter _

theorem touch_taken (id : ℕ) (response : ProtocolResponse D) (hid : response.sessionId = id) :
    ProtocolTouch s { s with taken := s.taken ++ [response] } id
      { s.account id with taken := (s.account id).taken ++ [response] } := by
  refine ⟨?_, fun id' hne => ?_, rfl, rfl, rfl, fun h => h, fun h => h⟩
  · unfold ProtocolSystem.account
    simp [filter_append, hid]
  · unfold ProtocolSystem.account
    simp [filter_append, hid, Ne.symm hne]

theorem touch_read {response : ProtocolResponse D} {rest : List (ProtocolResponse D)}
    (hresponse : s.response = response :: rest) (hid : response.sessionId = id) :
    ProtocolTouch s { s with response := rest } id
      { s.account id with response := (s.account id).response.tail } ∧
      (s.account id).response = response :: (s.account id).response.tail := by
  refine ⟨⟨?_, fun id' hne => ?_, rfl, rfl, rfl, fun h => h, fun h => h⟩, ?_⟩
  · unfold ProtocolSystem.account
    simp [hresponse, hid]
  · unfold ProtocolSystem.account
    simp [hresponse, hid, Ne.symm hne]
  · unfold ProtocolSystem.account
    simp [hresponse, hid]

theorem touch_result (id : ℕ) (result : Option (ℕ × ProtocolMessage D)) :
    ProtocolTouch s { s with result := result } id (s.account id) :=
  ⟨rfl, fun _ _ => rfl, rfl, rfl, rfl, fun h => h, fun h => h⟩

end

end Touch

/-! ## What holds of an account -/

/-- The session is removed when the call returns. -/
def ProtocolClientCall.ends : ProtocolClientCall → Bool
  | close _ | freeQueued _ _ | freeCancel _ _ => true
  | _ => false

/-- The request of a session that is on the way to the server. -/
structure ProtocolAsked (service : ProtocolService W S P D) (a : ProtocolAccount P D)
    (session : ProtocolClientSession D) (request : ProtocolRequest P) : Prop where
  queued : session.queued = true
  onWay : a.request = [request]
  waiting : a.waiting = []
  opn : request.type = .opn →
    service.IsOpen request.command ∧ a.served = false ∧ session.isOpen = true
  prc : request.type = .prc →
    (request.sessionRequired = true ∧ service.IsSession request.command) ∨
      (request.sessionRequired = false ∧ service.IsStandalone request.command)
  end_ : request.type = .cls ∨ request.type = .cnc →
    request.sessionRequired = true ∧ service.IsSession request.command
  cancel : ∀ id memory, a.call = .freeCancel id memory → request.type = .cnc
  close : ∀ id, a.call = .close id → request.type = .cls

/-- The response of a session that was not taken. -/
structure ProtocolAnswered (a : ProtocolAccount P D) (session : ProtocolClientSession D)
    (response : ProtocolResponse D) : Prop where
  queued : session.queued = true
  onWay : a.request = []
  waiting : a.waiting = [response]
  served : response.close = true → a.served = false
  cancel : ∀ id memory, a.call = .freeCancel id memory →
    response.close = true ∧ response.message.isError = false
  close : ∀ id, a.call = .close id → response.message.isError = false → response.close = true

/-- Nothing is on the way for a session. -/
structure ProtocolQuiet (a : ProtocolAccount P D) (session : ProtocolClientSession D) : Prop where
  queued : session.queued = false
  onWay : a.request = []
  waiting : a.waiting = []

/-- **What holds of an account.** -/
structure ProtocolAccount.Ok (service : ProtocolService W S P D) (a : ProtocolAccount P D) :
    Prop where
  /-- Nothing is left of a session that is gone. -/
  gone : a.session = none → a.listed = false ∧ a.request = [] ∧ a.response = [] ∧
    a.served = false ∧ a.call = .none
  way : ∀ session, a.session = some session → ProtocolQuiet a session ∨
    (∃ request, ProtocolAsked service a session request) ∨
    ∃ response, ProtocolAnswered a session response
  served : a.served = true → ∃ session, a.session = some session ∧ session.isOpen = true
  command : ∀ session, a.session = some session → session.isOpen = true →
    service.IsSession session.command
  tracked : ∀ session, a.session = some session → session.async = true ∨ session.isOpen = true →
    a.listed = true
  callback : ∀ session, a.session = some session → session.callback = true → a.listed = true
  listed : ∀ session, a.session = some session → a.listed = true → session.callback = true ∨
    ∃ id memory, a.call = .freeQueued id memory ∨ a.call = .freeCancel id memory
  queued : ∀ session, a.session = some session → session.queued = true → a.listed = true ∨
    a.call ≠ .none
  calling : ∀ session, a.session = some session → a.call ≠ .none → session.queued = true
  oneShot : ∀ id session, a.session = some session → a.call = .oneShot id →
    a.listed = false ∧ session.isOpen = false
  ending : a.call.ends = true → a.listed = true
  sent : a.sent = a.handled.map Prod.fst ++ a.request
  taken : a.taken ++ a.waiting = a.handled.map Prod.snd

/-- **What holds after every step.** -/
structure ProtocolInv (service : ProtocolService W S P D) (s : ProtocolSystem W S P D) : Prop where
  failed : s.failed = none
  exit : s.server.exit = false
  idle : s.call = .none → s.client.state = .idle
  busy : s.call ≠ .none → s.result = none
  bounds : ∀ id session, s.session id = some session → 1 ≤ id ∧ id ≤ s.client.sessionTotal
  nodup : s.client.sessionList.Nodup
  serverNodup : s.server.sessionIdList.Nodup
  order : s.sent = s.handled.map Prod.fst ++ s.request
  account : ∀ id, (s.account id).Ok service
  /-- What was returned last is the last response that was taken, and nothing else
  was sent since. -/
  result : ∀ id message, s.result = some (id, message) →
    (s.account id).request = [] ∧ (s.account id).waiting = [] ∧
      ∃ response, (s.account id).taken.getLast? = some response ∧ response.message = message

theorem ProtocolInv.touch {service : ProtocolService W S P D} {s s' : ProtocolSystem W S P D} {id : ℕ}
    {a : ProtocolAccount P D} (h : ProtocolInv service s) (ht : ProtocolTouch s s' id a)
    (hok : a.Ok service) (hbounds : 1 ≤ id ∧ id ≤ s.client.sessionTotal)
    (hidle : s'.call = .none → s'.client.state = .idle) (hbusy : s'.call ≠ .none → s'.result = none)
    (hresult : ∀ id' message, s'.result = some (id', message) →
      id' = id ∧ a.request = [] ∧ a.waiting = [] ∧
        ∃ response, a.taken.getLast? = some response ∧ response.message = message) :
    ProtocolInv service s' := by
  refine ⟨ht.failed.trans h.failed, by rw [ht.server]; exact h.exit, hidle, hbusy,
    fun id' session hs' => ?_, ht.nodup h.nodup, by rw [ht.server]; exact h.serverNodup,
    ht.order h.order, fun id' => ?_, fun id' message hs' => ?_⟩
  · rw [ht.sessionTotal]
    by_cases hid : id' = id
    · rw [hid]
      exact hbounds
    · have hsame : s'.session id' = s.session id' :=
        congrArg ProtocolAccount.session (ht.others id' hid)
      exact h.bounds id' session (hsame.symm.trans hs')
  · by_cases hid : id' = id
    · rw [hid, ht.account]
      exact hok
    · rw [ht.others id' hid]
      exact h.account id'
  · obtain ⟨rfl, hrest⟩ := hresult id' message hs'
    rw [ht.account]
    exact hrest

/-! ## Accounts at rest -/

/-- Nothing is on the way for a session, which is in a call or not. -/
structure ProtocolRest (service : ProtocolService W S P D) (a : ProtocolAccount P D)
    (session : ProtocolClientSession D) : Prop extends ProtocolQuiet a session where
  found : a.session = some session
  served : a.served = true → session.isOpen = true
  command : session.isOpen = true → service.IsSession session.command
  sent : a.sent = a.handled.map Prod.fst
  taken : a.taken = a.handled.map Prod.snd

section Rest

variable {service : ProtocolService W S P D} {a : ProtocolAccount P D}
  {session : ProtocolClientSession D}

theorem ProtocolAccount.Ok.rest (h : a.Ok service) (hsession : a.session = some session)
    (hqueued : session.queued = false) : ProtocolRest service a session := by
  rcases h.way session hsession with hquiet | ⟨request, hasked⟩ | ⟨response, hanswered⟩
  · refine ⟨hquiet, hsession, fun hserved => ?_, h.command session hsession, ?_, ?_⟩
    · obtain ⟨session', hsession', hopen⟩ := h.served hserved
      rwa [Option.some.inj (hsession.symm.trans hsession')]
    · have hsent := h.sent
      rwa [hquiet.onWay, append_nil] at hsent
    · have htaken := h.taken
      rwa [hquiet.waiting, append_nil] at htaken
  · cases hqueued.symm.trans hasked.queued
  · cases hqueued.symm.trans hanswered.queued

section

variable (h : ProtocolRest service a session)
include h

theorem ProtocolRest.stored : session.stored = false := by
  have hwaiting := (append_eq_nil_iff.mp h.waiting).1
  unfold ProtocolAccount.stored at hwaiting
  rw [h.found] at hwaiting
  cases hstored : session.stored with
  | false => rfl
  | true =>
    dsimp only at hwaiting
    rw [hstored] at hwaiting
    cases hwaiting

theorem ProtocolRest.response : a.response = [] :=
  (append_eq_nil_iff.mp h.waiting).2

theorem ProtocolRest.gone (hopen : session.isOpen = false) :
    ({ a with session := none, listed := false, call := .none } : ProtocolAccount P D).Ok service := by
  have hserved : a.served = false := by
    rw [← Bool.not_eq_true]
    intro hserved
    rw [h.served hserved] at hopen
    cases hopen
  refine ⟨fun _ => ⟨rfl, h.onWay, h.response, hserved, rfl⟩, nofun, fun hs => ?_, nofun, nofun, nofun,
    nofun, nofun, nofun, nofun, fun h => absurd h Bool.false_ne_true, ?_, ?_⟩
  · cases hserved.symm.trans hs
  · show a.sent = _ ++ a.request
    rw [h.onWay, append_nil]
    exact h.sent
  · show a.taken ++ ([] ++ a.response) = _
    rw [h.response, append_nil, append_nil]
    exact h.taken

theorem ProtocolRest.quiet
    (htracked : session.async = true ∨ session.isOpen = true → a.listed = true)
    (hcallback : session.callback = true ↔ a.listed = true) :
    ({ a with call := .none } : ProtocolAccount P D).Ok service := by
  have hsession : ∀ {session'}, a.session = some session' → session' = session :=
    fun h' => Option.some.inj (h'.symm.trans h.found)
  refine ⟨fun hnone => ?_, fun session' h' => Or.inl ?_, fun hs => ⟨session, h.found, h.served hs⟩,
    fun session' h' => ?_, fun session' h' => ?_, fun session' h' => ?_, fun session' h' hlisted => ?_,
    fun session' h' hqueued => ?_, fun _ _ hcall => absurd rfl hcall, nofun,
    fun h => absurd h Bool.false_ne_true, ?_, ?_⟩
  · cases h.found.symm.trans hnone
  · rw [hsession h']
    exact ⟨h.queued, h.onWay, h.waiting⟩
  · rw [hsession h']
    exact h.command
  · rw [hsession h']
    exact htracked
  · rw [hsession h']
    exact hcallback.mp
  · rw [hsession h']
    exact Or.inl (hcallback.mpr hlisted)
  · rw [hsession h', h.queued] at hqueued
    cases hqueued
  · show a.sent = _ ++ a.request
    rw [h.onWay, append_nil]
    exact h.sent
  · show a.taken ++ a.waiting = _
    rw [h.waiting, append_nil]
    exact h.taken

theorem ProtocolRest.ok (hcall : a.call = .none)
    (htracked : session.async = true ∨ session.isOpen = true → a.listed = true)
    (hcallback : session.callback = true ↔ a.listed = true) : a.Ok service := by
  have hsame : ({ a with call := .none } : ProtocolAccount P D) = a := by rw [← hcall]
  rw [← hsame]
  exact h.quiet htracked hcallback

end

theorem ProtocolAccount.Ok.new (h : a.Ok service) (hnone : a.session = none)
    (hqueued : session.queued = false) (hstored : session.stored = false)
    (hopen : session.isOpen = false) (hcallback : session.callback = session.async) {listed : Bool}
    (hlisted : listed = session.async) :
    ({ a with session := some session, listed := listed } : ProtocolAccount P D).Ok service := by
  obtain ⟨-, honWay, hresponse, hserved, hcall⟩ := h.gone hnone
  have hwaiting : a.waiting = [] := by
    unfold ProtocolAccount.waiting ProtocolAccount.stored
    rw [hnone, hresponse]
    rfl
  have hsent := h.sent
  have htaken := h.taken
  rw [honWay, append_nil] at hsent
  rw [hwaiting, append_nil] at htaken
  have hrest : ProtocolRest service
      ({ a with session := some session, listed := listed } : ProtocolAccount P D) session := by
    refine ⟨⟨hqueued, honWay, ?_⟩, rfl, fun hs => ?_, fun hs => ?_, hsent, htaken⟩
    · show (if session.stored then _ else []) ++ a.response = []
      rw [hstored, hresponse]
      rfl
    · cases hserved.symm.trans hs
    · cases hopen.symm.trans hs
  refine hrest.ok hcall (fun hs => ?_) (by rw [hcallback, hlisted])
  rcases hs with hs | hs
  · exact hlisted.trans hs
  · cases hopen.symm.trans hs

/-- **A request is written** for a session, which may be opened with it. -/
theorem ProtocolRest.asked (h : ProtocolRest service a session) {session' : ProtocolClientSession D}
    {request : ProtocolRequest P} {listed : Bool} {call : ProtocolClientCall}
    (hqueued : session'.queued = true) (hstored : session'.stored = false)
    (hopen : session.isOpen = true → session'.isOpen = true)
    (hcommand : session'.isOpen = true → service.IsSession session'.command)
    (hopn : request.type = .opn →
      service.IsOpen request.command ∧ session.isOpen = false ∧ session'.isOpen = true)
    (hprc : request.type = .prc →
      (request.sessionRequired = true ∧ service.IsSession request.command) ∨
        (request.sessionRequired = false ∧ service.IsStandalone request.command))
    (hend : request.type = .cls ∨ request.type = .cnc →
      request.sessionRequired = true ∧ service.IsSession request.command)
    (hcancel : ∀ id memory, call = .freeCancel id memory → request.type = .cnc)
    (hclose : ∀ id, call = .close id → request.type = .cls)
    (htracked : session'.async = true ∨ session'.isOpen = true → listed = true)
    (hcallback : session'.callback = true → listed = true)
    (hlisted : listed = true → session'.callback = true ∨
      ∃ id memory, call = .freeQueued id memory ∨ call = .freeCancel id memory)
    (hwait : listed = true ∨ call ≠ .none)
    (honeShot : ∀ id, call = .oneShot id → listed = false ∧ session'.isOpen = false)
    (hends : call.ends = true → listed = true) :
    ({ a with
        session := some session'
        listed := listed
        request := a.request ++ [request]
        sent := a.sent ++ [request]
        call := call } : ProtocolAccount P D).Ok service := by
  have hwaiting : ({ a with session := some session' } : ProtocolAccount P D).waiting = [] := by
    show (if session'.stored then _ else []) ++ a.response = []
    rw [hstored, h.response]
    rfl
  refine ⟨nofun, fun session'' h' => Or.inr (Or.inl ⟨request, ?_⟩), fun hs => ⟨session', rfl, ?_⟩,
    fun session'' h' => ?_, fun session'' h' => ?_, fun session'' h' => ?_, fun session'' h' => ?_,
    fun _ _ _ => hwait, fun session'' h' _ => ?_, fun id session'' h' hcall => ?_, hends, ?_, ?_⟩
  · cases h'
    refine ⟨hqueued, ?_, hwaiting, fun htype => ?_, hprc, hend, hcancel, hclose⟩
    · show a.request ++ [request] = [request]
      rw [h.onWay, nil_append]
    · obtain ⟨hisOpen, hclosed, hopened⟩ := hopn htype
      refine ⟨hisOpen, ?_, hopened⟩
      rw [← Bool.not_eq_true]
      intro hserved
      rw [h.served hserved] at hclosed
      cases hclosed
  · exact hopen (h.served hs)
  · cases h'
    exact hcommand
  · cases h'
    exact htracked
  · cases h'
    exact hcallback
  · cases h'
    exact hlisted
  · cases h'
    exact hqueued
  · cases h'
    exact honeShot id hcall
  · show a.sent ++ [request] = _ ++ (a.request ++ [request])
    rw [h.onWay, h.sent, nil_append]
  · refine (congrArg (a.taken ++ ·) hwaiting).trans ?_
    rw [append_nil]
    exact h.taken

theorem ProtocolRest.callback (h : ProtocolRest service a session) (callback : Bool) :
    ProtocolRest service
      ({ a with session := some { session with callback := callback } } : ProtocolAccount P D)
      { session with callback := callback } := by
  refine ⟨⟨h.queued, h.onWay, ?_⟩, rfl, h.served, h.command, h.sent, h.taken⟩
  show (if session.stored then _ else []) ++ a.response = []
  rw [h.stored, h.response]
  rfl

/-- **A call begins to wait** for what is on the way for a session. -/
theorem ProtocolAccount.Ok.wait (h : a.Ok service) (hsession : a.session = some session)
    (hqueued : session.queued = true) (hnone : a.call = .none) {callback : Bool}
    {call : ProtocolClientCall}
    (hkind : (∃ id memory, call = .freeQueued id memory) ∨
      (∃ id, call = .response id) ∧ callback = session.callback)
    (hcallback : callback = true → session.callback = true) (hends : call.ends = true → a.listed = true) :
    ({ a with session := some { session with callback := callback }, call := call } :
      ProtocolAccount P D).Ok service := by
  have hcall : call ≠ .none ∧ (∀ id memory, call ≠ .freeCancel id memory) ∧ (∀ id, call ≠ .close id) ∧
      ∀ id, call ≠ .oneShot id := by
    rcases hkind with ⟨id, memory, rfl⟩ | ⟨⟨id, rfl⟩, -⟩
    · exact ⟨nofun, nofun, nofun, nofun⟩
    · exact ⟨nofun, nofun, nofun, nofun⟩
  obtain ⟨hwait, hcancel, hclose, honeShot⟩ := hcall
  have hwaiting : ({ a with session := some { session with callback := callback }, call := call } :
      ProtocolAccount P D).waiting = a.waiting := by
    unfold ProtocolAccount.waiting ProtocolAccount.stored
    rw [hsession]
  have htaken := h.taken
  rw [← hwaiting] at htaken
  refine ⟨nofun, fun session' h' => ?_, fun hs => ?_, fun session' h' => ?_, fun session' h' => ?_,
    fun session' h' hc => ?_, fun session' h' hlisted => ?_, fun _ _ _ => Or.inr hwait,
    fun session' h' _ => ?_, fun id _ _ hc => absurd hc (honeShot id), hends, h.sent, htaken⟩
  · cases h'
    refine (h.way session hsession).imp (fun hquiet => ?_) (Or.imp (fun hasked => ?_) (fun hanswered => ?_))
    · cases hquiet.queued.symm.trans hqueued
    · obtain ⟨request, hasked⟩ := hasked
      exact ⟨request, hasked.queued, hasked.onWay, hwaiting.trans hasked.waiting, hasked.opn, hasked.prc,
        hasked.end_, fun id memory hc => absurd hc (hcancel id memory), fun id hc => absurd hc (hclose id)⟩
    · obtain ⟨response, hanswered⟩ := hanswered
      exact ⟨response, hanswered.queued, hanswered.onWay, hwaiting.trans hanswered.waiting,
        hanswered.served, fun id memory hc => absurd hc (hcancel id memory),
        fun id hc => absurd hc (hclose id)⟩
  · obtain ⟨session', hsession', hopen⟩ := h.served hs
    rw [← Option.some.inj (hsession.symm.trans hsession')] at hopen
    exact ⟨_, rfl, hopen⟩
  · cases h'
    exact h.command session hsession
  · cases h'
    exact h.tracked session hsession
  · cases h'
    exact h.callback session hsession (hcallback hc)
  · cases h'
    rcases hkind with ⟨id, memory, hfree⟩ | ⟨-, hsame⟩
    · exact Or.inr ⟨id, memory, Or.inl hfree⟩
    · rcases h.listed session hsession hlisted with hold | ⟨id, memory, hfree⟩
      · exact Or.inl (hsame.trans hold)
      · rw [hnone] at hfree
        rcases hfree with hfree | hfree
        · cases hfree
        · cases hfree
  · cases h'
    exact hqueued

/-- **The response of a session is taken.** -/
theorem ProtocolAccount.Ok.take (h : a.Ok service) (hsession : a.session = some session)
    {response : ProtocolResponse D} (hanswered : ProtocolAnswered a session response)
    (session' : ProtocolClientSession D) (hqueued : session'.queued = false)
    (hstored : session'.stored = false) (hcommand : session'.command = session.command)
    (hopen : session'.isOpen = if response.close then false else session.isOpen)
    {rest : List (ProtocolResponse D)} (hrest : rest = []) :
    ProtocolRest service
      ({ a with
          session := some session', response := rest, taken := a.taken ++ [response] } :
        ProtocolAccount P D) session' := by
  have hsent := h.sent
  have htaken := h.taken
  rw [hanswered.onWay, append_nil] at hsent
  rw [hanswered.waiting] at htaken
  refine ⟨⟨hqueued, hanswered.onWay, ?_⟩, rfl, fun hs => ?_, fun hs => ?_, hsent, htaken⟩
  · show (if session'.stored then _ else []) ++ rest = []
    rw [hstored, hrest]
    rfl
  · have hclose : response.close = false := by
      rw [← Bool.not_eq_true]
      intro hclose
      cases (hanswered.served hclose).symm.trans hs
    obtain ⟨old, hold, hisOpen⟩ := h.served hs
    rw [hopen, hclose, if_neg Bool.false_ne_true, Option.some.inj (hsession.symm.trans hold)]
    exact hisOpen
  · rw [hopen] at hs
    rw [hcommand]
    refine h.command session hsession ?_
    split at hs
    · cases hs
    · exact hs

end Rest

/-! ## What the functions of the client do -/

/-- The function returns, and what it touched. -/
def ProtocolReach (s : ProtocolSystem W S P D) (result : Except Error (ProtocolSystem W S P D)) (id : ℕ)
    (a : ProtocolAccount P D) (state : ProtocolClientState) (call : ProtocolClientCall)
    (returned : Option (ℕ × ProtocolMessage D)) : Prop :=
  ∃ s', result = .ok s' ∧ ProtocolTouch s s' id a ∧ s'.client.state = state ∧ s'.call = call ∧
    s'.result = returned

section Functions

variable {s : ProtocolSystem W S P D} {id : ℕ} {session : ProtocolClientSession D}

theorem getSession_ok (hsession : s.session id = some session) : s.getSession id = .ok session := by
  unfold ProtocolSystem.getSession
  rw [hsession]

theorem expectIdle_ok (hidle : s.client.state = .idle) : protocolClientStateExpectIdle s = .ok () := by
  unfold protocolClientStateExpectIdle
  rw [if_pos hidle]

theorem findIdx_ok (hlisted : id ∈ s.client.sessionList) :
    protocolClientSessionFindIdx s id = .ok (s.client.sessionList.findIdx (fun id' => id' = id)) := by
  unfold protocolClientSessionFindIdx
  rw [if_pos (findIdx_lt_length_of_exists ⟨id, hlisted, by simp⟩)]

theorem protocolClientRequestInternal_reach (hsession : s.session id = some session)
    (hqueued : session.queued = false) (hidle : s.client.state = .idle) (type : ProtocolCommandType)
    (param : Option P) :
    ProtocolReach s (protocolClientRequestInternal s id type param) id
      { s.account id with
        session := some { session with queued := true }
        request := (s.account id).request ++ [⟨session.command, type, id, session.isOpen, param⟩]
        sent := (s.account id).sent ++ [⟨session.command, type, id, session.isOpen, param⟩] }
      s.client.state s.call s.result := by
  unfold protocolClientRequestInternal
  simp only [getSession_ok hsession, bind, Except.bind, hqueued, Bool.false_eq_true, if_false,
    expectIdle_ok hidle]
  have hset := touch_setSession s id (some { session with queued := true })
  have hsend := touch_send (s.setSession id (some { session with queued := true }))
    ⟨session.command, type, id, session.isOpen, param⟩ rfl
  rw [hset.account] at hsend
  exact ⟨_, rfl, hset.trans hsend, rfl, rfl, rfl⟩

theorem protocolClientResponseInternal_reach (hsession : s.session id = some session)
    (hidle : s.client.state = .idle) (hs : s.call.session = none ∨ s.call.session = some id)
    (call : ProtocolClientCall) (hcall : call.session = some id) :
    ProtocolReach s (protocolClientResponseInternal s call id) id { s.account id with call := call }
      (if session.stored then .idle else .response) call s.result := by
  unfold protocolClientResponseInternal
  simp only [getSession_ok hsession, bind, Except.bind, expectIdle_ok hidle]
  exact ⟨_, rfl, touch_call s id call hs (Or.inr hcall) _, rfl, rfl, rfl⟩

theorem protocolClientSessionRemove_reach (hlisted : id ∈ s.client.sessionList)
    (hnodup : s.client.sessionList.Nodup) (hs : s.call.session = none ∨ s.call.session = some id) :
    ProtocolReach s (protocolClientSessionRemove s id) id
      { s.account id with session := none, listed := false, call := .none } s.client.state .none
      s.result := by
  unfold protocolClientSessionRemove
  simp only [findIdx_ok hlisted, bind, Except.bind]
  have hset := touch_setSession s id (none : Option (ProtocolClientSession D))
  have hlist := touch_list_remove (s.setSession id none) id hnodup
  rw [hset.account] at hlist
  have hend := touch_call
    { s.setSession id none with
      client :=
        { s.client with
          sessionList := s.client.sessionList.eraseIdx
            (s.client.sessionList.findIdx (fun id' => id' = id)) } }
    id .none hs (Or.inl rfl) s.client.state
  have haccount := hlist.account
  dsimp only [ProtocolSystem.setSession] at haccount hend
  rw [haccount] at hend
  exact ⟨_, rfl, (hset.trans hlist).trans hend, rfl, rfl, rfl⟩

end Functions

/-! ## What a call leaves -/

/-- **A step that goes well**: it touches one session, whose account is as it
should be, and the client is idle when the call has ended. -/
structure ProtocolGood (service : ProtocolService W S P D) (s : ProtocolSystem W S P D)
    (s' : ProtocolSystem W S P D) (id : ℕ) (a : ProtocolAccount P D) : Prop where
  touch : ProtocolTouch s s' id a
  ok : a.Ok service
  idle : s'.call = .none → s'.client.state = .idle
  busy : s'.call ≠ .none → s'.result = none
  result : ∀ id' message, s'.result = some (id', message) →
    id' = id ∧ a.request = [] ∧ a.waiting = [] ∧
      ∃ response, a.taken.getLast? = some response ∧ response.message = message

section Calls

variable {service : ProtocolService W S P D} {s : ProtocolSystem W S P D} {id : ℕ}
  {session : ProtocolClientSession D}

theorem ProtocolGood.trans {s₀ s' : ProtocolSystem W S P D} {a b : ProtocolAccount P D}
    (ht : ProtocolTouch s₀ s id a) (h : ProtocolGood service s s' id b) :
    ProtocolGood service s₀ s' id b :=
  ⟨ht.trans h.touch, h.ok, h.idle, h.busy, h.result⟩

/-- What the client, its list and its calls must be like while a session is freed. -/
structure ProtocolReady (s : ProtocolSystem W S P D) (id : ℕ) : Prop where
  idle : s.client.state = .idle
  nodup : s.client.sessionList.Nodup
  call : s.call.session = none ∨ s.call.session = some id

/-- What was returned, for a session at rest. -/
def ProtocolReturned (s : ProtocolSystem W S P D) (id : ℕ) : Prop :=
  ∀ id' message, s.result = some (id', message) →
    id' = id ∧ ∃ response, (s.account id).taken.getLast? = some response ∧ response.message = message

section

variable (hready : ProtocolReady s id) (hrest : ProtocolRest service (s.account id) session)
include hready hrest

/-- **A session that is not open is removed.** -/
theorem protocolClientSessionRemove_good (hopen : session.isOpen = false)
    (hlisted : (s.account id).listed = true) (hreturned : ProtocolReturned s id) :
    ∃ s' a, protocolClientSessionRemove s id = .ok s' ∧ ProtocolGood service s s' id a := by
  have hmem : id ∈ s.client.sessionList := by simpa [ProtocolSystem.account] using hlisted
  obtain ⟨s', hs', htouch, hstate, hcall, hresult⟩ :=
    protocolClientSessionRemove_reach hmem hready.nodup hready.call
  refine ⟨s', _, hs', htouch, hrest.gone hopen, fun _ => hstate.trans hready.idle,
    fun hne => absurd hcall hne, fun id' message hm => ?_⟩
  rw [hresult] at hm
  obtain ⟨hid, htaken⟩ := hreturned id' message hm
  refine ⟨hid, hrest.onWay, ?_, htaken⟩
  show [] ++ (s.account id).response = []
  rw [hrest.response]
  rfl

/-- **The second part of freeing** a session at rest. -/
theorem protocolClientSessionFreeOpen_good (hlisted : (s.account id).listed = true)
    (hreturned : ProtocolReturned s id) (hnone : session.isOpen = true → s.result = none)
    (memory : Bool) :
    ∃ s' a, protocolClientSessionFreeOpen s id memory = .ok s' ∧ ProtocolGood service s s' id a := by
  have hsession : s.session id = some session := hrest.found
  unfold protocolClientSessionFreeOpen
  simp only [getSession_ok hsession, bind, Except.bind]
  cases hopen : session.isOpen with
  | false =>
    rw [if_neg Bool.false_ne_true]
    exact protocolClientSessionRemove_good hready hrest hopen hlisted hreturned
  | true =>
    rw [if_pos rfl]
    obtain ⟨s₁, hs₁, htouch₁, hstate₁, hcall₁, hresult₁⟩ :=
      protocolClientRequestInternal_reach hsession hrest.queued hready.idle .cnc none
    rw [hs₁]
    have hsession₁ : s₁.session id = some { session with queued := true } :=
      congrArg ProtocolAccount.session htouch₁.account
    obtain ⟨s₂, hs₂, htouch₂, hstate₂, hcall₂, hresult₂⟩ :=
      protocolClientResponseInternal_reach hsession₁ (hstate₁.trans hready.idle)
        (by rw [hcall₁]; exact hready.call) (.freeCancel id memory) rfl
    rw [htouch₁.account] at htouch₂
    have hresult : s₂.result = none := hresult₂.trans (hresult₁.trans (hnone hopen))
    refine ⟨s₂, _, hs₂, htouch₁.trans htouch₂, ?_, fun h => ?_, fun _ => hresult, fun id' message hm => ?_⟩
    · refine hrest.asked rfl hrest.stored (fun h => h)
        hrest.command nofun nofun (fun _ => ⟨hopen, hrest.command hopen⟩) (fun _ _ _ => rfl) nofun
        (fun _ => hlisted) (fun _ => hlisted) (fun _ => Or.inr ⟨id, memory, Or.inr rfl⟩) (Or.inl hlisted)
        nofun (fun _ => hlisted)
    · rw [hcall₂] at h
      cases h
    · rw [hresult] at hm
      cases hm

end

end Calls

end PgxBackup
