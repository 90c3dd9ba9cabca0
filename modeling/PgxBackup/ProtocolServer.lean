import PgxBackup.Text

/-!
# The protocol server

The server reads a request, finds the handler of its command and writes one
response or one error. Sessions are opened, processed, closed and cancelled by
requests with the id that the client gave them; the server keeps the data of
each session that is open. What the handlers do is up to them: they change the
state of the process and return data, session data and a request to close the
session, or throw.

An error that is not fatal is the response of the request, after the retries. A
fatal one ends the server and its response is for no session.
-/

namespace PgxBackup

/-- The error ends the process. -/
def Error.fatal (error : Error) : Bool := error.type = .assertError

/-- `ASSERT`. -/
def assertFailed (condition : String) : Error :=
  ⟨.assertError, ("assertion '" ++ condition ++ "' failed").toList⟩

/-- What a request is for (`ProtocolCommandType`). -/
inductive ProtocolCommandType
  | opn
  | prc
  | cls
  | cnc
  deriving DecidableEq, Repr

/-- The name of the command type in messages. -/
def ProtocolCommandType.toStr : ProtocolCommandType → Str
  | opn => "opn".toList
  | prc => "prc".toList
  | cls => "cls".toList
  | cnc => "cnc".toList

/-- A request (`ProtocolServerRequestResult`). -/
structure ProtocolRequest (P : Type) where
  command : Str
  type : ProtocolCommandType
  sessionId : ℕ
  sessionRequired : Bool
  param : Option P
  deriving DecidableEq

/-- A response with data or an error. An error has the errors of all tries. -/
inductive ProtocolMessage (D : Type)
  | response (data : Option D)
  | error (errRetry : List Error)
  deriving DecidableEq

def ProtocolMessage.isError {D : Type} : ProtocolMessage D → Bool
  | response _ => false
  | error _ => true

/-- What the server writes. -/
structure ProtocolResponse (D : Type) where
  sessionId : ℕ
  close : Bool
  message : ProtocolMessage D
  deriving DecidableEq

/-- What a handler returns (`ProtocolServerResult`). A handler that returns
nothing returns the result without data. -/
structure ProtocolServerResult (S D : Type) where
  sessionData : Option S
  data : Option D
  close : Bool

/-- A function of a handler. It keeps the promise about its results that the
server asserts, and its errors are not fatal. -/
structure ProtocolServerCall (W S P D : Type) (promise : ProtocolServerResult S D → Prop) where
  call : Option P → Option S → W → Except Error (ProtocolServerResult S D) × W
  result : ∀ param sessionData world result,
    (call param sessionData world).1 = .ok result → promise result
  error : ∀ param sessionData world error,
    (call param sessionData world).1 = .error error → error.fatal = false

/-- A handler (`ProtocolServerHandler`). It processes requests of sessions or
standalone requests. -/
structure ProtocolServerHandler (W S P D : Type) where
  command : Str
  opn : Option (ProtocolServerCall W S P D (fun result => result.close = false))
  process : Option (ProtocolServerCall W S P D
    (fun result => result.sessionData = none ∧ result.close = false))
  processSession : Option (ProtocolServerCall W S P D (fun result => result.sessionData = none))
  cls : Option (ProtocolServerCall W S P D
    (fun result => result.sessionData = none ∧ result.close = false))
  kind : process.isSome = !processSession.isSome
  kind_opn : opn.isSome = true → processSession.isSome = true

/-- The server (`ProtocolServer`), with the state of its process. -/
structure ProtocolServer (W S : Type) where
  sessionList : List (ℕ × S)
  world : W
  /-- The server has ended. -/
  exit : Bool

section Server

variable {W S P D : Type}

/-- A response that was written and what it left, or an error. -/
abbrev ProtocolServerTry (W S D : Type) : Type :=
  Except Error (ProtocolResponse D) × ProtocolServer W S

def protocolServerOpen (handler : ProtocolServerHandler W S P D) (request : ProtocolRequest P)
    (this : ProtocolServer W S) : ProtocolServerTry W S D :=
  match handler.opn with
  | none => (.error (assertFailed "handler->open != NULL"), this)
  | some opn =>
    let (result, world) := opn.call request.param none this.world
    let this := { this with world := world }
    match result with
    | .error error => (.error error, this)
    | .ok openResult =>
      if openResult.close then (.error (assertFailed "!openResult->close"), this)
      else
        (.ok ⟨request.sessionId, openResult.sessionData.isNone, .response openResult.data⟩,
          -- create session if open returned session data
          match openResult.sessionData with
          | some sessionData =>
            { this with sessionList := this.sessionList ++ [(request.sessionId, sessionData)] }
          | none => this)

/-- Process a request of a session or a standalone request. -/
def protocolServerProcessRequest (handler : ProtocolServerHandler W S P D)
    (request : ProtocolRequest P) (sessionData : Option S) (sessionListIdx : ℕ)
    (this : ProtocolServer W S) : ProtocolServerTry W S D :=
  let (result, world) :=
    match handler.processSession, handler.process with
    | some processSession, none => processSession.call request.param sessionData this.world
    | some _, some _ => (.error (assertFailed "handler->process == NULL"), this.world)
    | none, none => (.error (assertFailed "handler->process != NULL"), this.world)
    | none, some process =>
      if request.sessionRequired then (.error (assertFailed "!request.sessionRequired"), this.world)
      else process.call request.param none this.world
  let this := { this with world := world }
  match result with
  | .error error => (.error error, this)
  | .ok processResult =>
    if processResult.sessionData.isSome then
      (.error (assertFailed "processResult->sessionData == NULL"), this)
    else if handler.processSession.isNone && processResult.close then
      (.error (assertFailed "handler->processSession != NULL || !processResult->close"), this)
    else
      (.ok ⟨request.sessionId, processResult.close, .response processResult.data⟩,
        -- free session when close is true
        if processResult.close then
          { this with sessionList := this.sessionList.eraseIdx sessionListIdx }
        else this)

def protocolServerClose (handler : ProtocolServerHandler W S P D) (request : ProtocolRequest P)
    (sessionData : Option S) (sessionListIdx : ℕ) (this : ProtocolServer W S) :
    ProtocolServerTry W S D :=
  let (result, world) :=
    match handler.cls with
    | some cls => cls.call request.param sessionData this.world
    | none => (.ok ⟨none, none, false⟩, this.world)
  let this := { this with world := world }
  match result with
  | .error error => (.error error, this)
  | .ok closeResult =>
    if closeResult.sessionData.isSome then
      (.error (assertFailed "closeResult->sessionData == NULL"), this)
    else if closeResult.close then (.error (assertFailed "!closeResult->close"), this)
    else
      (.ok ⟨request.sessionId, true, .response closeResult.data⟩,
        { this with sessionList := this.sessionList.eraseIdx sessionListIdx })

def protocolServerCancel (request : ProtocolRequest P) (sessionData : Option S) (sessionListIdx : ℕ)
    (this : ProtocolServer W S) : ProtocolServerTry W S D :=
  (.ok ⟨request.sessionId, true, .response none⟩,
    if sessionData.isSome then
      { this with sessionList := this.sessionList.eraseIdx sessionListIdx }
    else this)

def protocolServerTry (handler : ProtocolServerHandler W S P D) (request : ProtocolRequest P)
    (this : ProtocolServer W S) : ProtocolServerTry W S D :=
  match request.type with
  | .opn => protocolServerOpen handler request this
  | type =>
    if request.sessionRequired && (handler.processSession.isNone || handler.process.isSome) then
      (.error (assertFailed "handler->processSession != NULL"), this)
    else
      -- find session data
      let sessionListIdx :=
        if request.sessionRequired then
          this.sessionList.findIdx (fun session => session.1 = request.sessionId)
        else 0
      let sessionData :=
        if request.sessionRequired then (this.sessionList[sessionListIdx]?).map Prod.snd else none
      if request.sessionRequired && sessionData.isNone && type ≠ .cnc then
        (.error ⟨.protocolError, "unable to find session id ".toList ++ Nat.toDigits 10 request.sessionId ++
          " for request ".toList ++ request.command ++ ":".toList ++ type.toStr⟩, this)
      else
        match type with
        | .prc => protocolServerProcessRequest handler request sessionData sessionListIdx this
        | .cls => protocolServerClose handler request sessionData sessionListIdx this
        | _ => protocolServerCancel request sessionData sessionListIdx this

/-- The retries of a request. An error that is not fatal is reported to the
client when no retries remain. -/
def protocolServerRetry (handler : ProtocolServerHandler W S P D) (request : ProtocolRequest P) :
    ℕ → List Error → ProtocolServer W S → ProtocolServerTry W S D
  | retryRemaining, errRetry, this =>
    match protocolServerTry handler request this with
    | (.ok response, this) => (.ok response, this)
    | (.error error, this) =>
      if error.fatal then (.error error, this)
      else
        match retryRemaining with
        | retryRemaining + 1 =>
          protocolServerRetry handler request retryRemaining (errRetry ++ [error]) this
        | 0 => (.ok ⟨request.sessionId, false, .error (errRetry ++ [error])⟩, this)

/-- The handlers of a server and the number of retries. -/
structure ProtocolService (W S P D : Type) where
  handlerList : List (ProtocolServerHandler W S P D)
  retryTotal : ℕ

def ProtocolService.handler (service : ProtocolService W S P D) (command : Str) :
    Option (ProtocolServerHandler W S P D) :=
  service.handlerList.find? (fun handler => handler.command = command)

/-- A fatal error is for the first session that sees it, and the server ends. -/
def protocolServerFatal (error : Error) (this : ProtocolServer W S) :
    Option (ProtocolResponse D) × ProtocolServer W S :=
  (some ⟨0, false, .error [error]⟩, { this with exit := true })

/-- One iteration of `protocolServerProcess`. -/
def protocolServerProcess (service : ProtocolService W S P D) (request : ProtocolRequest P)
    (this : ProtocolServer W S) : Option (ProtocolResponse D) × ProtocolServer W S :=
  match service.handler request.command with
  | some handler =>
    match protocolServerRetry handler request service.retryTotal [] this with
    | (.ok response, this) => (some response, this)
    | (.error error, this) => protocolServerFatal error this
  | none =>
    if request.command = "exit".toList then (none, { this with exit := true })
    else if request.command = "noop".toList then
      (some ⟨request.sessionId, false, .response none⟩, this)
    else
      protocolServerFatal
        ⟨.protocolError, "invalid request '".toList ++ request.command ++ "'".toList⟩ this

end Server

end PgxBackup
