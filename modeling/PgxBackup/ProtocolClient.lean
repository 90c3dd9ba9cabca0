import Mathlib.Logic.Function.Basic
import PgxBackup.ProtocolServer
import PgxBackup.Steps

/-!
# The protocol client

The client writes requests and reads responses on one connection for any number
of sessions. A session that reads may find the response of another session, and
stores it there. Freeing a session reads the response that is queued, if any,
cancels the session if it is open and removes it from the list.

A session is known by its id, which stands for its address as well. A call of
the client waits for a response while it reads; the server may process requests
at any time. What is sent, processed and taken by the sessions is recorded.
-/

namespace PgxBackup

/-- The state of the client (`ProtocolClientState`). -/
inductive ProtocolClientState
  | idle
  | request
  | response
  deriving DecidableEq, Repr

/-- A session of the client (`ProtocolClientSession`). -/
structure ProtocolClientSession (D : Type) where
  command : Str
  isOpen : Bool
  queued : Bool
  async : Bool
  stored : Bool
  close : Bool
  /-- The type of the last message and its data. -/
  message : ProtocolMessage D
  /-- Is the callback that frees the session set? -/
  callback : Bool

/-- The client (`ProtocolClient`). -/
structure ProtocolClient where
  state : ProtocolClientState
  sessionTotal : ℕ
  sessionList : List ℕ

/-- The call of the client that waits for a response. -/
inductive ProtocolClientCall
  | none
  /-- The response is returned to the caller. -/
  | response (id : ℕ)
  /-- As above, for the session of `protocolClientRequest`. -/
  | oneShot (id : ℕ)
  | close (id : ℕ)
  /-- The response that is queued when a session is freed, and that to the cancel.
  The memory of the session is freed or not. -/
  | freeQueued (id : ℕ) (memory : Bool)
  | freeCancel (id : ℕ) (memory : Bool)
  deriving DecidableEq, Repr

/-- The client, its sessions, the channels and the server. -/
structure ProtocolSystem (W S P D : Type) where
  client : ProtocolClient
  session : ℕ → Option (ProtocolClientSession D)
  call : ProtocolClientCall
  /-- The requests and the responses that were written and not read. -/
  request : List (ProtocolRequest P)
  response : List (ProtocolResponse D)
  server : ProtocolServer W S
  /-- An `ASSERT` or a `CHECK` failed. -/
  failed : Option Error
  /-- What the last call returned or threw, for a session. -/
  result : Option (ℕ × ProtocolMessage D)
  /-- All requests that were written. -/
  sent : List (ProtocolRequest P)
  /-- The requests that were processed, with their responses. -/
  handled : List (ProtocolRequest P × ProtocolResponse D)
  /-- The responses that were returned, thrown or freed by their sessions. -/
  taken : List (ProtocolResponse D)

section Client

variable {W S P D : Type}

/-- The client before the first call, connected to a server. -/
def protocolClientNew (world : W) : ProtocolSystem W S P D where
  client := ⟨.idle, 0, []⟩
  session := fun _ => none
  call := .none
  request := []
  response := []
  server := ⟨[], world, false⟩
  failed := none
  result := none
  sent := []
  handled := []
  taken := []

def ProtocolSystem.setSession (this : ProtocolSystem W S P D) (id : ℕ)
    (session : Option (ProtocolClientSession D)) : ProtocolSystem W S P D :=
  { this with session := Function.update this.session id session }

def ProtocolSystem.getSession (this : ProtocolSystem W S P D) (id : ℕ) :
    Except Error (ProtocolClientSession D) :=
  match this.session id with
  | some session => .ok session
  | none => .error (assertFailed "this != NULL")

def protocolClientStateExpectIdle (this : ProtocolSystem W S P D) : Except Error Unit :=
  if this.client.state = .idle then .ok ()
  else .error ⟨.protocolError, "client state is not the expected 'idle'".toList⟩

def protocolClientSessionFindIdx (this : ProtocolSystem W S P D) (sessionId : ℕ) : Except Error ℕ :=
  let result := this.client.sessionList.findIdx (fun id => id = sessionId)
  if result < this.client.sessionList.length then .ok result
  else .error ⟨.protocolError, "unable to find protocol client session ".toList ++
    Nat.toDigits 10 sessionId⟩

def protocolClientRequestInternal (this : ProtocolSystem W S P D) (id : ℕ)
    (type : ProtocolCommandType) (param : Option P) : Except Error (ProtocolSystem W S P D) := do
  let session ← this.getSession id
  if session.queued then .error (assertFailed "!protocolClientSessionQueued(this)")
  else do
    protocolClientStateExpectIdle this
    let request : ProtocolRequest P := ⟨session.command, type, id, session.isOpen, param⟩
    let this := this.setSession id (some { session with queued := true })
    .ok { this with request := this.request ++ [request], sent := this.sent ++ [request] }

/-- Begin to wait for the response of a session. -/
def protocolClientResponseInternal (this : ProtocolSystem W S P D) (call : ProtocolClientCall)
    (id : ℕ) : Except Error (ProtocolSystem W S P D) := do
  let session ← this.getSession id
  protocolClientStateExpectIdle this
  .ok
    { this with
      -- there is nothing to read when a response is stored
      client := { this.client with state := if session.stored then .idle else .response }
      call := call }

/-- Remove a session from the list. The caller does not use it any more. -/
def protocolClientSessionRemove (this : ProtocolSystem W S P D) (id : ℕ) :
    Except Error (ProtocolSystem W S P D) := do
  let sessionIdx ← protocolClientSessionFindIdx this id
  let this := this.setSession id none
  .ok
    { this with
      client := { this.client with sessionList := this.client.sessionList.eraseIdx sessionIdx }
      call := .none }

/-- The second part of freeing a session: cancel it if it is open. -/
def protocolClientSessionFreeOpen (this : ProtocolSystem W S P D) (id : ℕ) (memory : Bool) :
    Except Error (ProtocolSystem W S P D) := do
  let session ← this.getSession id
  if session.isOpen then do
    let this ← protocolClientRequestInternal this id .cnc none
    protocolClientResponseInternal this (.freeCancel id memory) id
  else protocolClientSessionRemove this id

def protocolClientSessionFreeResource (this : ProtocolSystem W S P D) (id : ℕ) (memory : Bool) :
    Except Error (ProtocolSystem W S P D) := do
  let session ← this.getSession id
  -- if a result is queued then read it before sending cancel
  if session.queued then
    if session.stored then
      -- free stored result
      protocolClientSessionFreeOpen
        { this with taken := this.taken ++ [⟨id, session.close, session.message⟩] } id memory
    else protocolClientResponseInternal this (.freeQueued id memory) id
  else protocolClientSessionFreeOpen this id memory

/-- Take a response: it is not queued any more, and it may close the session. -/
def protocolClientSessionTake (this : ProtocolSystem W S P D) (id : ℕ)
    (session : ProtocolClientSession D) (response : ProtocolResponse D) : ProtocolSystem W S P D :=
  let this := this.setSession id
    (some
      { session with
        stored := false
        queued := false
        isOpen := if response.close then false else session.isOpen })
  { this with
    client := { this.client with state := .idle }
    taken := this.taken ++ [response] }

/-- The response of the session was taken: return it or throw the error, and go
on with the call. -/
def protocolClientSessionReturn (this : ProtocolSystem W S P D) (call : ProtocolClientCall) (id : ℕ)
    (message : ProtocolMessage D) : Except Error (ProtocolSystem W S P D) := do
  let session ← this.getSession id
  match call, message with
  | .freeQueued _ memory, .response _ => protocolClientSessionFreeOpen this id memory
  | .freeCancel _ _, .response _ =>
    if session.isOpen then .error (assertFailed "!this->pub.open")
    else protocolClientSessionRemove this id
  -- the error is thrown before the session is removed
  | .freeQueued _ memory, .error _ | .freeCancel _ memory, .error _ =>
    let this := if memory then this.setSession id none else this
    .ok { this with call := .none, result := some (id, message) }
  | .close _, .response _ =>
    if session.isOpen then .error (assertFailed "!this->pub.open")
    else
      let this := this.setSession id (some { session with callback := false })
      protocolClientSessionFreeResource { this with result := some (id, message) } id false
  | .oneShot _, _ =>
    .ok { this.setSession id none with call := .none, result := some (id, message) }
  | _, _ => .ok { this with call := .none, result := some (id, message) }

def protocolClientSessionStore (this : ProtocolSystem W S P D) (response : ProtocolResponse D) :
    Except Error (ProtocolSystem W S P D) := do
  let _ ← protocolClientSessionFindIdx this response.sessionId
  let sessionOther ← this.getSession response.sessionId
  if sessionOther.stored then
    .error ⟨.protocolError, "protocol client session ".toList ++
      Nat.toDigits 10 response.sessionId ++ " already has a stored response".toList⟩
  else
    .ok (this.setSession response.sessionId
      (some { sessionOther with stored := true, close := response.close, message := response.message }))

/-- Read one response while session `id` waits. -/
def protocolClientResponseRead (this : ProtocolSystem W S P D) (id : ℕ)
    (response : ProtocolResponse D) : Except Error (ProtocolSystem W S P D) :=
  if response.sessionId = 0 && !response.message.isError then
    .error (assertFailed "sessionId != 0 || type == protocolMessageTypeError")
  -- if this response is for another session then store it with that session
  else if response.sessionId ≠ 0 ∧ response.sessionId ≠ id then
    protocolClientSessionStore this response
  else do
    let session ← this.getSession id
    protocolClientSessionReturn (protocolClientSessionTake this id session response) this.call id
      response.message

/-! ## The calls of the client -/

def protocolClientSessionNew (this : ProtocolSystem W S P D) (command : Str) (async : Bool) :
    ProtocolSystem W S P D :=
  let sessionId := this.client.sessionTotal + 1
  let this := this.setSession sessionId
    (some
      { command := command, isOpen := false, queued := false, async := async, stored := false,
        close := false, message := .response none, callback := async })
  { this with
    client :=
      { this.client with
        sessionTotal := sessionId
        -- if async then the session will need to be tracked
        sessionList :=
          if async then this.client.sessionList ++ [sessionId] else this.client.sessionList } }

/-- Open a session: write the request and track the session. -/
def protocolClientSessionOpen (this : ProtocolSystem W S P D) (id : ℕ) (param : Option P) :
    Except Error (ProtocolSystem W S P D) := do
  let session ← this.getSession id
  if session.isOpen then .error (assertFailed "!this->pub.open")
  else do
    let this ← protocolClientRequestInternal this id .opn param
    let session ← this.getSession id
    let this := this.setSession id (some { session with isOpen := true, callback := true })
    protocolClientResponseInternal
      { this with
        client :=
          { this.client with
            sessionList :=
              if session.async then this.client.sessionList else this.client.sessionList ++ [id] } }
      (.response id) id

/-- The calls of the client. -/
inductive ProtocolClientOp (P : Type)
  | new (command : Str) (async : Bool)
  | opn (id : ℕ) (param : Option P)
  | request (id : ℕ) (param : Option P)
  | requestAsync (id : ℕ) (param : Option P)
  | response (id : ℕ)
  | close (id : ℕ)
  | cancel (id : ℕ)
  | free (id : ℕ)
  | oneShot (command : Str) (param : Option P)

def protocolClientBegin (this : ProtocolSystem W S P D) :
    ProtocolClientOp P → Except Error (ProtocolSystem W S P D)
  | .new command async => .ok (protocolClientSessionNew this command async)
  | .opn id param => protocolClientSessionOpen this id param
  | .request id param => do
    let this ← protocolClientRequestInternal this id .prc param
    protocolClientResponseInternal this (.response id) id
  | .requestAsync id param => do
    let session ← this.getSession id
    if session.async then protocolClientRequestInternal this id .prc param
    else .error (assertFailed "this->async")
  | .response id => do
    let session ← this.getSession id
    if session.async then protocolClientResponseInternal this (.response id) id
    else .error (assertFailed "this->async")
  | .close id => do
    let session ← this.getSession id
    if session.isOpen then do
      let this ← protocolClientRequestInternal this id .cls none
      protocolClientResponseInternal this (.close id) id
    else .error (assertFailed "this->pub.open")
  | .cancel id => do
    let session ← this.getSession id
    protocolClientSessionFreeResource
      (this.setSession id (some { session with callback := false })) id false
  | .free id => do
    let session ← this.getSession id
    if session.callback then protocolClientSessionFreeResource this id true
    else .ok (this.setSession id none)
  | .oneShot command param => do
    let id := this.client.sessionTotal + 1
    let this ← protocolClientRequestInternal (protocolClientSessionNew this command false) id .prc param
    protocolClientResponseInternal this (.oneShot id) id

/-! ## The steps -/

/-- What happens next: the client begins a call, or reads a response while a call
waits, or the server processes a request. -/
inductive ProtocolEvent (P : Type)
  | begin (op : ProtocolClientOp P)
  | read
  | server

/-- The session that waits for a response. -/
def ProtocolClientCall.session : ProtocolClientCall → Option ℕ
  | none => Option.none
  | response id | oneShot id | close id | freeQueued id _ | freeCancel id _ => some id

/-- Keep the state, or note what failed. -/
def ProtocolSystem.after (this : ProtocolSystem W S P D) :
    Except Error (ProtocolSystem W S P D) → ProtocolSystem W S P D
  | .ok this => this
  | .error error => { this with failed := some error }

/-- The response that session `id` reads next: the one that is stored, or the
first one of the channel, with what is left of the channel. -/
def protocolClientNext (this : ProtocolSystem W S P D) (id : ℕ) :
    Option (ProtocolResponse D × List (ProtocolResponse D)) :=
  match this.session id, this.response with
  | some session, response =>
    if session.stored then some (⟨id, session.close, session.message⟩, response)
    else response.head?.map (fun first => (first, response.tail))
  | none, _ => none

/-- One step. A call begins when no other one waits. -/
def protocolStep (service : ProtocolService W S P D) (this : ProtocolSystem W S P D) :
    ProtocolEvent P → Option (ProtocolSystem W S P D)
  | .begin op =>
    if this.failed.isNone ∧ this.call = .none then
      some (this.after (protocolClientBegin { this with result := none } op))
    else none
  | .read =>
    if this.failed.isNone then do
      let id ← this.call.session
      let (response, rest) ← protocolClientNext this id
      some (this.after (protocolClientResponseRead { this with response := rest } id response))
    else none
  | .server =>
    match this.request with
    | [] => none
    | request :: rest =>
      if this.server.exit then none
      else
        let (response, server) := protocolServerProcess service request this.server
        some
          { this with
            request := rest
            response := this.response ++ response.toList
            server := server
            handled := this.handled ++ (response.map (fun response => (request, response))).toList }

end Client

end PgxBackup
