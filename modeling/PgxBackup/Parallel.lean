import Mathlib.Data.Nat.Notation
import Mathlib.Logic.Function.Basic
import PgxBackup.Steps

/-!
# The parallel executor

The executor has a fixed list of clients, each with a worker of its own. An
idle client gets its next job from the callback; the job is sent as a request
and its response is read when `select` reports the descriptor of the client.
The caller takes the finished jobs out of the job list.

A job is known by its address, here the number of jobs that the callback had
produced before it. The list of jobs and the slots of the clients hold
addresses, so that a job that is finished through its slot is finished in the
list as well.

The workers run beside the executor: a worker may answer its request at any
time, which nothing notices before the next `select`. What was called, sent,
answered and returned is recorded.
-/

namespace PgxBackup

inductive ProtocolParallelJobState
  | pending
  | running
  | done
  deriving DecidableEq

/-- What `protocolClientSessionResponse` makes of the message of a worker: it
returns a result or throws an error. -/
inductive ParallelResponse (R : Type)
  | result (result : R)
  | error (code : Int) (message : String)

/-- A job. `param` stands for what the callback decides: the key, the command
and its parameters. -/
structure ProtocolParallelJob (J R : Type) where
  param : J
  state : ProtocolParallelJobState
  processId : ℕ
  code : Int
  message : Option String
  result : Option R

variable {C J R : Type}

namespace ProtocolParallelJob

/-- `protocolParallelJobNew`. -/
def new (param : J) : ProtocolParallelJob J R := ⟨param, .pending, 0, 0, none, none⟩

/-- `protocolParallelJobStateSet`: the state only moves forward, one state at
a time. -/
def stateSet (job : ProtocolParallelJob J R) (state : ProtocolParallelJobState) :
    Option (ProtocolParallelJob J R) :=
  match job.state, state with
  | .pending, .running => some { job with state := .running }
  | .running, .done => some { job with state := .done }
  | _, _ => none

/-- `protocolParallelJobResultSet`, or `protocolParallelJobErrorSet` when the
response is an error. -/
def responseSet (job : ProtocolParallelJob J R) :
    ParallelResponse R → ProtocolParallelJob J R
  | .result result => { job with result := some result }
  | .error code message => { job with code := code, message := some message }

end ProtocolParallelJob

/-- The job that was produced for a client, when it is being processed. -/
def ProtocolParallelJob.running (client : ℕ) (param : J) : ProtocolParallelJob J R :=
  { new param with state := .running, processId := client + 1 }

/-- The job that was produced for a client, when its response was read. -/
def ProtocolParallelJob.done (client : ℕ) (param : J) (response : ParallelResponse R) :
    ProtocolParallelJob J R :=
  { (running client param).responseSet response with state := .done }

/-- Where the caller is in its loop. -/
inductive ParallelCaller
  /-- About to call `protocolParallelProcess`. -/
  | processing
  /-- About to take this many results. -/
  | taking (total : ℕ)
  /-- `protocolParallelDone` was true. -/
  | finished
  /-- An exception has left the loop. -/
  | thrown
  deriving DecidableEq

/-- The executor, its caller and its workers. -/
structure ProtocolParallel (C J R : Type) where
  callbackData : C
  /-- The clients are `0 .. clientTotal - 1`. -/
  clientTotal : ℕ
  /-- The jobs by address. -/
  job : ℕ → ProtocolParallelJob J R
  jobTotal : ℕ
  jobList : List ℕ
  /-- The job that a client is processing. -/
  clientJobList : ℕ → Option ℕ
  /-- Has the client been freed? -/
  freed : ℕ → Bool
  /-- The requests that the worker of a client has not answered. -/
  requests : ℕ → List ℕ
  /-- The responses of a worker that have not been read. -/
  responses : ℕ → List (ℕ × ParallelResponse R)
  caller : ParallelCaller
  /-- The calls of the callback with what it returned. -/
  calls : List (ℕ × Option J)
  /-- The requests that were sent, with the client they were sent to. -/
  sent : List (ℕ × J)
  answered : List (ℕ × ParallelResponse R)
  /-- What `protocolParallelResult` returned: `NULL`, or an address and the
  job found there. -/
  returned : List (Option (ℕ × ProtocolParallelJob J R))

namespace ProtocolParallel

/-- The jobs that the callback has produced, each with the client it was
produced for. The address of a job is its position. -/
def produced (s : ProtocolParallel C J R) : List (ℕ × J) :=
  s.calls.filterMap (fun call => call.2.map (fun param => (call.1, param)))

/-- `select`: the running clients whose descriptor can be read. Every client
has a descriptor of its own, so the set is a set of clients and the number of
descriptors that `select` returns is its size; it is empty when `select`
times out. -/
def select (s : ProtocolParallel C J R) : List ℕ :=
  ((List.range s.clientTotal).filter (fun client => (s.clientJobList client).isSome)).filter
    (fun client => !(s.responses client).isEmpty)

/-- Read the response for the job of a client, which is then done. -/
def read (s : ProtocolParallel C J R) (client : ℕ) : Option (ProtocolParallel C J R) :=
  match s.clientJobList client, s.responses client with
  | some address, (session, response) :: responses =>
    if session = address then
      (((s.job address).responseSet response).stateSet .done).map (fun job =>
        { s with
          job := Function.update s.job address job
          clientJobList := Function.update s.clientJobList client none
          responses := Function.update s.responses client responses })
    else none
  | _, _ => none

/-- Send the request of a job. A client that was freed has no worker that
would receive it. -/
def send (s : ProtocolParallel C J R) (client address : ℕ) (param : J) :
    ProtocolParallel C J R :=
  if s.freed client then s
  else
    { s with
      requests := Function.update s.requests client (s.requests client ++ [address])
      sent := s.sent ++ [(client, param)] }

/-- Start a job that the callback has produced for a client. -/
def start (s : ProtocolParallel C J R) (client : ℕ) (param : J) :
    Option (ProtocolParallel C J R) :=
  let s := { s with jobTotal := s.jobTotal + 1, jobList := s.jobList ++ [s.jobTotal] }
  let address := s.jobTotal - 1
  let job := { (ProtocolParallelJob.new param : ProtocolParallelJob J R) with processId := client + 1 }
  (job.stateSet .running).map (fun job =>
    { s.send client address param with
      job := Function.update s.job address job
      clientJobList := Function.update s.clientJobList client (some address) })

/-- Find a new job for a client that is not processing one, or free the
client. -/
def dispatch (callback : C → ℕ → Option J × C) (s : ProtocolParallel C J R) (client : ℕ) :
    Option (ProtocolParallel C J R) :=
  match s.clientJobList client with
  | some _ => some s
  | none =>
    let (job, callbackData) := callback s.callbackData client
    let s := { s with callbackData := callbackData, calls := s.calls ++ [(client, job)] }
    match job with
    | some param => s.start client param
    | none => some { s with freed := Function.update s.freed client true }

/-- `protocolParallelProcess`. The caller goes on with the number of
descriptors that `select` has returned. -/
def process (callback : C → ℕ → Option J × C) (s : ProtocolParallel C J R) :
    Option (ProtocolParallel C J R) :=
  let completed := s.select
  (Steps.run read s completed).bind (fun s =>
    (Steps.run (dispatch callback) s (List.range s.clientTotal)).map (fun s =>
      { s with caller := .taking completed.length }))

/-- `protocolParallelResult`: the first job of the list that is done. -/
def result (s : ProtocolParallel C J R) : ProtocolParallel C J R :=
  match s.jobList.find? (fun address => (s.job address).state = .done) with
  | some address =>
    { s with
      jobList := s.jobList.erase address
      returned := s.returned ++ [some (address, s.job address)] }
  | none => { s with returned := s.returned ++ [none] }

/-- The worker of a client answers its oldest request. -/
def answer (s : ProtocolParallel C J R) (client : ℕ) (response : ParallelResponse R) :
    Option (ProtocolParallel C J R) :=
  match s.requests client with
  | address :: requests =>
    some { s with
      requests := Function.update s.requests client requests
      responses := Function.update s.responses client
        (s.responses client ++ [(address, response)])
      answered := s.answered ++ [(address, response)] }
  | [] => none

end ProtocolParallel

/-- What can happen next: a worker answers, or the caller goes on. -/
inductive ParallelEvent (R : Type)
  | answer (client : ℕ) (response : ParallelResponse R)
  /-- `protocolParallelProcess` returns. -/
  | process
  /-- An exception leaves `protocolParallelProcess`: `select` fails, the
  callback throws, or a connection is lost, since then the session cannot be
  freed. -/
  | throw
  | result
  /-- `protocolParallelDone`. -/
  | done

def parallelStep (callback : C → ℕ → Option J × C) (s : ProtocolParallel C J R) :
    ParallelEvent R → Option (ProtocolParallel C J R)
  | .answer client response => s.answer client response
  | .process =>
    match s.caller with
    | .processing => s.process callback
    | _ => none
  | .throw =>
    match s.caller with
    | .processing => some { s with caller := .thrown }
    | _ => none
  | .result =>
    match s.caller with
    | .taking (total + 1) => some { s.result with caller := .taking total }
    | _ => none
  | .done =>
    match s.caller with
    | .taking 0 =>
      some { s with caller := if s.jobList.isEmpty then .finished else .processing }
    | _ => none

/-- The executor with its clients added and nothing processed. -/
def protocolParallelNew [Inhabited J] (callbackData : C) (clientTotal : ℕ) :
    ProtocolParallel C J R where
  callbackData := callbackData
  clientTotal := clientTotal
  job := fun _ => .new default
  jobTotal := 0
  jobList := []
  clientJobList := fun _ => none
  freed := fun _ => false
  requests := fun _ => []
  responses := fun _ => []
  caller := .processing
  calls := []
  sent := []
  answered := []
  returned := []

/-- The state of the callback after it was called for a list of clients. -/
def parallelCallbackRun (callback : C → ℕ → Option J × C) (data : C) (clients : List ℕ) : C :=
  clients.foldl (fun data client => (callback data client).2) data

/-- **A callback that is exhausted client by client**: after it has returned
`NULL` for a client it never returns a job for this client again, whatever it
is called for in between. -/
def ParallelCallbackEnds (callback : C → ℕ → Option J × C) (data : C) : Prop :=
  ∀ (before between : List ℕ) (client : ℕ),
    (callback (parallelCallbackRun callback data before) client).1 = none →
    (callback (parallelCallbackRun callback data (before ++ client :: between)) client).1 = none

end PgxBackup
