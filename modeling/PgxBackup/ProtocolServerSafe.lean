import PgxBackup.Keyed
import PgxBackup.ProtocolServer

/-!
# What a request does to the server

A request that a handler is for has one response, which is for its session. Only
the data of that session is added or removed: after a response that closes the
session the server has no data for it.
-/

namespace PgxBackup

variable {W S P D : Type}

def ProtocolService.IsSession (service : ProtocolService W S P D) (command : Str) : Prop :=
  ∃ handler, service.handler command = some handler ∧ handler.processSession.isSome = true

/-- The sessions of the command can be opened. -/
def ProtocolService.IsOpen (service : ProtocolService W S P D) (command : Str) : Prop :=
  ∃ handler, service.handler command = some handler ∧ handler.opn.isSome = true

/-- The command is processed without a session. -/
def ProtocolService.IsStandalone (service : ProtocolService W S P D) (command : Str) : Prop :=
  (∃ handler, service.handler command = some handler ∧ handler.processSession.isSome = false) ∨
    (service.handler command = none ∧ command = "noop".toList)

def ProtocolServer.sessionIdList (server : ProtocolServer W S) : List ℕ :=
  server.sessionList.map Prod.fst

/-- **A request that the server can process**: a handler is for it, and a session
that is opened is new. -/
structure ProtocolRequestOk (service : ProtocolService W S P D) (server : ProtocolServer W S)
    (request : ProtocolRequest P) : Prop where
  opn : request.type = .opn → service.IsOpen request.command ∧
    request.sessionId ∉ server.sessionIdList
  prc : request.type = .prc →
    (request.sessionRequired = true ∧ service.IsSession request.command) ∨
      (request.sessionRequired = false ∧ service.IsStandalone request.command)
  end_ : request.type = .cls ∨ request.type = .cnc →
    request.sessionRequired = true ∧ service.IsSession request.command

/-- **What a request changes.** -/
structure ProtocolProcessed (request : ProtocolRequest P) (server : ProtocolServer W S)
    (response : ProtocolResponse D) (server' : ProtocolServer W S) : Prop where
  exit : server'.exit = server.exit
  sessionId : response.sessionId = request.sessionId
  nodup : server'.sessionIdList.Nodup
  others : ∀ entry : ℕ × S, entry.1 ≠ request.sessionId →
    (entry ∈ server'.sessionList ↔ entry ∈ server.sessionList)
  own : request.sessionId ∈ server'.sessionIdList →
    request.type = .opn ∨ request.sessionId ∈ server.sessionIdList
  close : response.close = true → request.sessionId ∉ server'.sessionIdList
  cnc : request.type = .cnc → response.close = true ∧ response.message.isError = false
  cls : request.type = .cls → response.message.isError = false → response.close = true

section Sessions

variable {request : ProtocolRequest P} {server : ProtocolServer W S} {response : ProtocolResponse D}

section

variable (hnodup : server.sessionIdList.Nodup) (hid : response.sessionId = request.sessionId)
include hnodup hid

theorem protocolProcessed_same
    (hclose : response.close = true → request.sessionId ∉ server.sessionIdList)
    (hcnc : request.type = .cnc → response.close = true ∧ response.message.isError = false)
    (hcls : request.type = .cls → response.message.isError = false → response.close = true)
    (world : W) : ProtocolProcessed request server response { server with world := world } :=
  ⟨rfl, hid, hnodup, fun _ _ => Iff.rfl, Or.inr, hclose, hcnc, hcls⟩

theorem protocolProcessed_remove
    (hcnc : request.type = .cnc → response.close = true ∧ response.message.isError = false)
    (hcls : request.type = .cls → response.message.isError = false → response.close = true)
    (world : W) :
    ProtocolProcessed request server response
      { server with
        world := world
        sessionList := server.sessionList.eraseIdx
          (server.sessionList.findIdx (fun session => session.1 = request.sessionId)) } := by
  rw [Keyed.eraseIdx_findIdx Prod.fst hnodup request.sessionId]
  have hgone : request.sessionId ∉
      (server.sessionList.filter (fun session => session.1 ≠ request.sessionId)).map Prod.fst :=
    fun hmem => (Keyed.mem_map_filter.mp hmem).1 rfl
  refine ⟨rfl, hid, Keyed.nodup_filter hnodup _, fun entry hne => ?_, fun hmem => absurd hmem hgone,
    fun _ => hgone, hcnc, hcls⟩
  show entry ∈ server.sessionList.filter _ ↔ _
  rw [List.mem_filter, decide_eq_true_eq]
  exact and_iff_left hne

theorem protocolProcessed_add (hnew : request.sessionId ∉ server.sessionIdList)
    (htype : request.type = .opn) (hclose : response.close = false) (world : W) (sessionData : S) :
    ProtocolProcessed request server response
      { server with
        world := world
        sessionList := server.sessionList ++ [(request.sessionId, sessionData)] } := by
  refine ⟨rfl, hid, Keyed.nodup_append hnodup hnew, fun entry hne => ?_, fun _ => Or.inl htype,
    fun h => ?_, fun h => ?_, fun h => ?_⟩
  · show entry ∈ server.sessionList ++ _ ↔ _
    rw [List.mem_append, List.mem_singleton, or_iff_left]
    rintro rfl
    exact hne rfl
  · rw [hclose] at h
    cases h
  · rw [htype] at h
    cases h
  · rw [htype] at h
    cases h

end

end Sessions

/-- What one try does: the request is processed, or an error that is not fatal
leaves the sessions as they were. -/
def ProtocolTryOk (request : ProtocolRequest P) (server : ProtocolServer W S) :
    ProtocolServerTry W S D → Prop
  | (.ok response, server') => ProtocolProcessed request server response server'
  | (.error error, server') =>
    error.fatal = false ∧ request.type ≠ .cnc ∧ ∃ world, server' = { server with world := world }

theorem ProtocolTryOk.ite {request : ProtocolRequest P} {server : ProtocolServer W S} {c : Prop}
    [Decidable c] {a b : ProtocolServerTry W S D} (ha : c → ProtocolTryOk request server a)
    (hb : ¬ c → ProtocolTryOk request server b) :
    ProtocolTryOk request server (if c then a else b) := by
  by_cases h : c
  · rw [if_pos h]
    exact ha h
  · rw [if_neg h]
    exact hb h

section Try

variable {handler : ProtocolServerHandler W S P D} {request : ProtocolRequest P}
  {server : ProtocolServer W S}

theorem protocolServerOpen_ok (hnodup : server.sessionIdList.Nodup) (htype : request.type = .opn)
    (hopn : handler.opn.isSome = true) (hnew : request.sessionId ∉ server.sessionIdList) :
    ProtocolTryOk request server (protocolServerOpen handler request server) := by
  obtain ⟨opn, hopn⟩ := Option.isSome_iff_exists.mp hopn
  unfold protocolServerOpen
  rw [hopn]
  dsimp only
  cases hresult : (opn.call request.param none server.world).1 with
  | error error => exact ⟨opn.error _ _ _ _ hresult, by rw [htype]; nofun, _, rfl⟩
  | ok openResult =>
    dsimp only
    rw [opn.result _ _ _ _ hresult, if_neg Bool.false_ne_true]
    cases openResult.sessionData with
    | some sessionData => exact protocolProcessed_add hnodup rfl hnew htype rfl _ _
    | none =>
      refine protocolProcessed_same hnodup rfl (fun _ => hnew) (fun h => ?_) (fun h => ?_) _
      · rw [htype] at h
        cases h
      · rw [htype] at h
        cases h

/-- The session of a request by its position. -/
def ProtocolServer.findIdx (server : ProtocolServer W S) (sessionId : ℕ) : ℕ :=
  server.sessionList.findIdx (fun session => session.1 = sessionId)

theorem protocolServerProcessRequest_ok (hnodup : server.sessionIdList.Nodup)
    (htype : request.type = .prc) (hkind : request.sessionRequired = handler.processSession.isSome)
    (sessionData : Option S) :
    ProtocolTryOk request server (protocolServerProcessRequest handler request sessionData
      (if request.sessionRequired then server.findIdx request.sessionId else 0) server) := by
  have hcnc : request.type ≠ .cnc := by
    rw [htype]
    nofun
  have hcls : request.type ≠ .cls := by
    rw [htype]
    nofun
  have hprocess := handler.kind
  unfold protocolServerProcessRequest
  cases hsession : handler.processSession with
  | some processSession =>
    rw [hsession] at hkind hprocess
    have hprocess : handler.process = none := by simpa using hprocess
    rw [hprocess, hkind]
    dsimp only
    cases hresult : (processSession.call request.param sessionData server.world).1 with
    | error error => exact ⟨processSession.error _ _ _ _ hresult, hcnc, _, rfl⟩
    | ok processResult =>
      dsimp only
      rw [processSession.result _ _ _ _ hresult]
      simp only [Option.isSome_none, Bool.false_eq_true, if_false, Option.isNone_some, Bool.false_and,
        Option.isSome_some, if_true]
      cases hclose : processResult.close with
      | true =>
        exact protocolProcessed_remove hnodup rfl (fun h => absurd h hcnc) (fun h => absurd h hcls) _
      | false =>
        exact protocolProcessed_same hnodup rfl (fun h => absurd h Bool.false_ne_true)
          (fun h => absurd h hcnc) (fun h => absurd h hcls) _
  | none =>
    rw [hsession] at hkind hprocess
    obtain ⟨process, hprocess⟩ := Option.isSome_iff_exists.mp (hprocess.trans rfl)
    rw [hprocess, hkind]
    simp only [Option.isSome_none, Bool.false_eq_true, if_false]
    cases hresult : (process.call request.param none server.world).1 with
    | error error => exact ⟨process.error _ _ _ _ hresult, hcnc, _, rfl⟩
    | ok processResult =>
      obtain ⟨hdata, hclose⟩ := process.result _ _ _ _ hresult
      dsimp only
      rw [hdata, hclose]
      simp only [Option.isSome_none, Bool.false_eq_true, if_false, Option.isNone_none, Bool.true_and]
      exact protocolProcessed_same hnodup rfl (fun h => absurd h Bool.false_ne_true)
        (fun h => absurd h hcnc) (fun h => absurd h hcls) _

theorem protocolServerClose_ok (hnodup : server.sessionIdList.Nodup) (htype : request.type = .cls)
    (sessionData : Option S) :
    ProtocolTryOk request server
      (protocolServerClose handler request sessionData (server.findIdx request.sessionId) server) := by
  have hcnc : request.type ≠ .cnc := by
    rw [htype]
    nofun
  unfold protocolServerClose
  cases handler.cls with
  | none =>
    simp only [Option.isSome_none, Bool.false_eq_true, if_false]
    exact protocolProcessed_remove hnodup rfl (fun h => absurd h hcnc) (fun _ _ => rfl) _
  | some cls =>
    dsimp only
    cases hresult : (cls.call request.param sessionData server.world).1 with
    | error error => exact ⟨cls.error _ _ _ _ hresult, hcnc, _, rfl⟩
    | ok closeResult =>
      obtain ⟨hdata, hclose⟩ := cls.result _ _ _ _ hresult
      dsimp only
      rw [hdata, hclose]
      simp only [Option.isSome_none, Bool.false_eq_true, if_false]
      exact protocolProcessed_remove hnodup rfl (fun h => absurd h hcnc) (fun _ _ => rfl) _

theorem findIdx_none {sessionId : ℕ}
    (hnone : ((server.sessionList[server.findIdx sessionId]?).map Prod.snd).isSome = false) :
    sessionId ∉ server.sessionIdList := by
  intro hmem
  obtain ⟨session, hsession, hid⟩ := List.mem_map.mp hmem
  have hlt : server.findIdx sessionId < server.sessionList.length :=
    List.findIdx_lt_length_of_exists ⟨session, hsession, by simpa using hid⟩
  rw [List.getElem?_eq_getElem hlt] at hnone
  cases hnone

theorem protocolServerCancel_ok (hnodup : server.sessionIdList.Nodup) (htype : request.type = .cnc) :
    ProtocolTryOk request server (protocolServerCancel (D := D) request
      ((server.sessionList[server.findIdx request.sessionId]?).map Prod.snd)
      (server.findIdx request.sessionId) server) := by
  have hcls : request.type ≠ .cls := by
    rw [htype]
    nofun
  unfold protocolServerCancel
  cases hsome : ((server.sessionList[server.findIdx request.sessionId]?).map Prod.snd).isSome with
  | true =>
    rw [if_pos rfl]
    exact protocolProcessed_remove hnodup rfl (fun _ => ⟨rfl, rfl⟩) (fun h => absurd h hcls) server.world
  | false =>
    rw [if_neg Bool.false_ne_true]
    exact protocolProcessed_same hnodup rfl (fun _ => findIdx_none hsome) (fun _ => ⟨rfl, rfl⟩)
      (fun h => absurd h hcls) server.world

/-- **One try** of a request that the handler is for. -/
theorem protocolServerTry_ok (hnodup : server.sessionIdList.Nodup)
    (hopn : request.type = .opn →
      handler.opn.isSome = true ∧ request.sessionId ∉ server.sessionIdList)
    (hprc : request.type = .prc → request.sessionRequired = handler.processSession.isSome)
    (hend : request.type = .cls ∨ request.type = .cnc →
      request.sessionRequired = true ∧ handler.processSession.isSome = true) :
    ProtocolTryOk request server (protocolServerTry handler request server) := by
  have hprocess := handler.kind
  -- requests of a session are for handlers of sessions
  have hassert : request.type ≠ .opn →
      (request.sessionRequired && (handler.processSession.isNone || handler.process.isSome)) = false := by
    intro hne
    rw [hprocess]
    cases htype : request.type with
    | opn => exact absurd htype hne
    | prc =>
      rw [hprc htype]
      cases handler.processSession
      · rfl
      · rfl
    | cls =>
      obtain ⟨-, hsome⟩ := hend (Or.inl htype)
      rw [← Option.not_isSome, hsome]
      simp
    | cnc =>
      obtain ⟨-, hsome⟩ := hend (Or.inr htype)
      rw [← Option.not_isSome, hsome]
      simp
  unfold protocolServerTry
  cases htype : request.type with
  | opn => exact protocolServerOpen_ok hnodup htype (hopn htype).1 (hopn htype).2
  | prc =>
    dsimp only
    rw [hassert (by rw [htype]; nofun), if_neg Bool.false_ne_true]
    exact ProtocolTryOk.ite (fun _ => ⟨rfl, by rw [htype]; nofun, server.world, rfl⟩)
      (fun _ => protocolServerProcessRequest_ok hnodup htype (hprc htype) _)
  | cls =>
    dsimp only
    rw [hassert (by rw [htype]; nofun), if_neg Bool.false_ne_true]
    rw [(hend (Or.inl htype)).1]
    exact ProtocolTryOk.ite (fun _ => ⟨rfl, by rw [htype]; nofun, server.world, rfl⟩)
      (fun _ => protocolServerClose_ok hnodup htype _)
  | cnc =>
    dsimp only
    rw [hassert (by rw [htype]; nofun), if_neg Bool.false_ne_true, (hend (Or.inr htype)).1]
    rw [if_neg (by simp)]
    exact protocolServerCancel_ok hnodup htype

/-- A request with other data of the process is still one that the server can
process. -/
theorem ProtocolProcessed.of_world {response : ProtocolResponse D} {server' : ProtocolServer W S}
    {world : W} (h : ProtocolProcessed request { server with world := world } response server') :
    ProtocolProcessed request server response server' :=
  ⟨h.exit, h.sessionId, h.nodup, h.others, h.own, h.close, h.cnc, h.cls⟩

/-- **The retries**: there is a response, of the handler or with the errors. -/
theorem protocolServerRetry_ok (hopn : request.type = .opn → handler.opn.isSome = true)
    (hprc : request.type = .prc → request.sessionRequired = handler.processSession.isSome)
    (hend : request.type = .cls ∨ request.type = .cnc →
      request.sessionRequired = true ∧ handler.processSession.isSome = true)
    (retryRemaining : ℕ) (errRetry : List Error) (server : ProtocolServer W S)
    (hnodup : server.sessionIdList.Nodup)
    (hnew : request.type = .opn → request.sessionId ∉ server.sessionIdList) :
    ∃ response server',
      protocolServerRetry handler request retryRemaining errRetry server = (.ok response, server') ∧
        ProtocolProcessed request server response server' := by
  induction retryRemaining generalizing errRetry server with
  | zero =>
    have htry := protocolServerTry_ok hnodup (fun h => ⟨hopn h, hnew h⟩) hprc hend
    unfold protocolServerRetry
    generalize protocolServerTry handler request server = result at htry
    obtain ⟨error | response, server'⟩ := result
    · obtain ⟨hfatal, hcnc, world, rfl⟩ := htry
      dsimp only
      rw [hfatal, if_neg Bool.false_ne_true]
      refine ⟨_, _, rfl, ?_⟩
      exact protocolProcessed_same hnodup rfl (fun h => absurd h Bool.false_ne_true)
        (fun h => absurd h hcnc) (fun _ h => by cases h) world
    · exact ⟨response, server', rfl, htry⟩
  | succ retryRemaining ih =>
    have htry := protocolServerTry_ok hnodup (fun h => ⟨hopn h, hnew h⟩) hprc hend
    unfold protocolServerRetry
    generalize protocolServerTry handler request server = result at htry
    obtain ⟨error | response, server'⟩ := result
    · obtain ⟨hfatal, -, world, rfl⟩ := htry
      dsimp only
      rw [hfatal, if_neg Bool.false_ne_true]
      obtain ⟨response, server', hretry, hprocessed⟩ :=
        ih (errRetry ++ [error]) { server with world := world } hnodup hnew
      exact ⟨response, server', hretry, hprocessed.of_world⟩
    · exact ⟨response, server', rfl, htry⟩

end Try

/-- **A request that the server can process** has one response, and the server
goes on. -/
theorem protocolServerProcess_ok {service : ProtocolService W S P D} {server : ProtocolServer W S}
    {request : ProtocolRequest P} (hnodup : server.sessionIdList.Nodup)
    (h : ProtocolRequestOk service server request) :
    ∃ response server', protocolServerProcess service request server = (some response, server') ∧
      ProtocolProcessed request server response server' := by
  unfold protocolServerProcess
  cases hhandler : service.handler request.command with
  | some handler =>
    have hfound : ∀ {handler'}, service.handler request.command = some handler' → handler' = handler :=
      fun h => Option.some.inj (h.symm.trans hhandler)
    have hopn : request.type = .opn → handler.opn.isSome = true := by
      intro htype
      obtain ⟨handler', hhandler', hopn⟩ := (h.opn htype).1
      rwa [hfound hhandler'] at hopn
    have hprc : request.type = .prc → request.sessionRequired = handler.processSession.isSome := by
      intro htype
      rcases h.prc htype with ⟨hreq, handler', hhandler', hsession⟩ |
        ⟨hreq, ⟨handler', hhandler', hsession⟩ | ⟨hnone, -⟩⟩
      · rw [hreq, ← hfound hhandler', hsession]
      · rw [hreq, ← hfound hhandler', hsession]
      · rw [hhandler] at hnone
        cases hnone
    have hend : request.type = .cls ∨ request.type = .cnc →
        request.sessionRequired = true ∧ handler.processSession.isSome = true := by
      intro htype
      obtain ⟨hreq, handler', hhandler', hsession⟩ := h.end_ htype
      rw [hfound hhandler'] at hsession
      exact ⟨hreq, hsession⟩
    obtain ⟨response, server', hretry, hprocessed⟩ := protocolServerRetry_ok hopn hprc hend
      service.retryTotal [] server hnodup (fun htype => (h.opn htype).2)
    dsimp only
    rw [hretry]
    exact ⟨response, server', rfl, hprocessed⟩
  | none =>
    -- only the built-in request is left
    have htype : request.type = .prc ∧ request.command = "noop".toList := by
      have hnone : ∀ {handler}, service.handler request.command ≠ some handler :=
        fun h => absurd (hhandler.symm.trans h) nofun
      cases htype : request.type with
      | opn =>
        obtain ⟨_, h, -⟩ := (h.opn htype).1
        exact absurd h hnone
      | prc =>
        rcases h.prc htype with ⟨-, _, h, -⟩ | ⟨-, ⟨_, h, -⟩ | ⟨-, h⟩⟩
        · exact absurd h hnone
        · exact absurd h hnone
        · exact ⟨rfl, h⟩
      | cls =>
        obtain ⟨-, _, h, -⟩ := h.end_ (Or.inl htype)
        exact absurd h hnone
      | cnc =>
        obtain ⟨-, _, h, -⟩ := h.end_ (Or.inr htype)
        exact absurd h hnone
    rw [if_neg (by rw [htype.2]; decide), if_pos htype.2]
    refine ⟨_, _, rfl, ?_⟩
    refine protocolProcessed_same hnodup rfl (fun h => absurd h Bool.false_ne_true) (fun h => ?_)
      (fun h => ?_) server.world
    · rw [htype.1] at h
      cases h
    · rw [htype.1] at h
      cases h

end PgxBackup
