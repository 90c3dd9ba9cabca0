import Mathlib.Data.List.Iterate
import Mathlib.Data.List.Sort
import Mathlib.Data.Nat.Notation
import Mathlib.Logic.Function.Basic
import PgxBackup.Steps

/-!
# Asynchronous archive-get

The foreground process, started by PostgreSQL for one WAL segment, looks for
the segment in the spool queue and forks a worker that fills the queue. The
two only meet in the spool directory: the worker writes status files and
renames the segments it has fetched, the foreground process tests for them.

An ok file next to a segment has the warnings of the fetch. An ok file without
a segment says that the segment is missing in the archive.

The processes are interleaved one file operation at a time. The spool may hold
any files of earlier runs at the beginning. The lock, the wait and the archive
are not modelled: whether the lock is acquired, whether there is time left and
what the worker finds in the archive may come out either way.
-/

namespace PgxBackup

/-- A WAL segment, by the three numbers of its name, which are `uint32_t`. -/
structure WalSegment where
  timeline : ℕ
  major : ℕ
  minor : ℕ
  timeline_lt : timeline < 2 ^ 32
  major_lt : major < 2 ^ 32
  minor_lt : minor < 2 ^ 32
  deriving DecidableEq

/-- `walSegmentNext`. -/
def walSegmentNext (walSegmentSize : ℕ) (walSegment : WalSegment) : WalSegment :=
  let minor := (walSegment.minor + 1) % 2 ^ 32
  if minor > (2 ^ 32 - 1) / walSegmentSize then
    { walSegment with
      major := (walSegment.major + 1) % 2 ^ 32
      major_lt := Nat.mod_lt _ (by decide)
      minor := 0
      minor_lt := by decide }
  else { walSegment with minor := minor, minor_lt := Nat.mod_lt _ (by decide) }

/-- `walSegmentRange`: a segment and those after it. -/
def walSegmentRange (walSegmentBegin : WalSegment) (walSegmentSize range : ℕ) : List WalSegment :=
  List.iterate (walSegmentNext walSegmentSize) walSegmentBegin range

/-- The order of the names of the segments. -/
def WalSegment.le (a b : WalSegment) : Bool :=
  a.timeline < b.timeline || (a.timeline = b.timeline &&
    (a.major < b.major || (a.major = b.major && a.minor ≤ b.minor)))

/-- The files of the spool queue. `B` is what a segment holds. -/
structure ArchiveSpool (B : Type) where
  segment : WalSegment → Option B
  /-- The segment while it is fetched, under a temporary name. -/
  temp : WalSegment → Option B
  ok : WalSegment → Option String
  error : WalSegment → Option String
  globalError : Option String

variable {B : Type}

/-- The WAL segments that should be in the queue after the worker has run.
The total is an `unsigned int`. -/
def queueIdeal (walSegment : WalSegment) (found : Bool) (queueSize walSegmentSize : ℕ) :
    List WalSegment :=
  let walSegmentFirst := if found then walSegmentNext walSegmentSize walSegment else walSegment
  let walSegmentQueueTotal := max 2 (queueSize / walSegmentSize % 2 ^ 32)
  (walSegmentRange walSegmentFirst walSegmentSize walSegmentQueueTotal).insertionSort
    (fun a b => a.le b = true)

/-- `queueNeed`, what stays in the queue: segments that are wanted, and the ok
files of segments that are there. -/
def queueClean (ideal : List WalSegment) (spool : ArchiveSpool B) : ArchiveSpool B where
  segment := fun file => if file ∈ ideal then spool.segment file else none
  temp := fun _ => none
  ok := fun file => if (spool.segment file).isSome then spool.ok file else none
  error := fun _ => none
  globalError := none

/-- `queueNeed`, the result: the segments that are wanted and not there. -/
def queueNeed (ideal : List WalSegment) (spool : ArchiveSpool B) : List WalSegment :=
  ideal.filter (fun file => (spool.segment file).isNone)

/-- Where `cmdArchiveGet` is in its loop. -/
inductive ArchiveGetPhase
  /-- About to test for the segment. -/
  | segment
  /-- `archiveAsyncStatus`: about to test for the ok file. -/
  | okFile
  /-- `archiveAsyncStatus`: about to test for the error files. -/
  | errorFile
  /-- About to remove the ok file. -/
  | okRemove
  /-- About to move the segment to its destination. -/
  | move
  /-- About to fork the worker, if this is needed. -/
  | fork
  /-- About to wait. -/
  | wait
  /-- Returned 0. -/
  | found
  /-- Returned 1, since an ok file was found. -/
  | notFound
  /-- An error was thrown. -/
  | thrown
  deriving DecidableEq

/-- What the worker does after the files that it has found: report an error,
report the first missing file, or nothing. -/
inductive ArchiveGetLast
  | error (file : Option WalSegment) (code : ℕ) (message : String)
  | missing (file : WalSegment) (message : Option String)
  | nothing

/-- Where `cmdArchiveGetAsync` is. -/
inductive ArchiveGetWorker (B : Type)
  /-- Not forked. -/
  | none
  /-- Forked with a list of segments. -/
  | forked (queue : List WalSegment)
  /-- The jobs are running. -/
  | running (jobs : List WalSegment) (last : ArchiveGetLast)
  /-- A segment was fetched; about to write its ok file. -/
  | okWrite (file : WalSegment) (warning : String) (jobs : List WalSegment) (last : ArchiveGetLast)
  /-- About to rename the segment that was fetched. -/
  | rename (file : WalSegment) (jobs : List WalSegment) (last : ArchiveGetLast)
  | exited

inductive ArchiveGetJobResult (B : Type)
  | ok (content : B) (warning : String)
  | error (code : ℕ) (message : String)

/-- `IsValidWalSegSize`: a power of two between 1 MiB and 1 GiB. -/
def isValidWalSegSize (walSegmentSize : ℕ) : Bool :=
  walSegmentSize &&& (walSegmentSize - 1) = 0 && 2 ^ 20 ≤ walSegmentSize && walSegmentSize ≤ 2 ^ 30

/-- The parameters of a run. The size of a segment comes from `pg_control`,
where `pgWalSegmentSizeCheck` has checked it. -/
structure ArchiveGetParam where
  walSegment : WalSegment
  archiveMissingRetry : Bool
  archiveGetQueueMax : ℕ
  walSegmentSize : ℕ
  walSegmentSize_valid : isValidWalSegSize walSegmentSize = true

/-- The spool and the two processes. -/
structure ArchiveGet (B : Type) where
  spool : ArchiveSpool B
  destination : Option B
  phase : ArchiveGetPhase
  /-- Is this the first time the loop has run? -/
  first : Bool
  /-- Has the WAL segment been found? -/
  found : Bool
  /-- Has the worker been forked? -/
  forked : Bool
  worker : ArchiveGetWorker B
  /-- What the worker has fetched. -/
  fetched : WalSegment → Option B

/-- An event. The steps of the processes are given by where they are, except
for what the events say. -/
inductive ArchiveGetEvent (B : Type)
  /-- The foreground process goes on. -/
  | get
  /-- The foreground process comes to where it forks the worker. -/
  | fork (queueFull acquired : Bool)
  /-- The foreground process waits. -/
  | wait (more : Bool)
  /-- The foreground process fails. -/
  | throw
  /-- The worker has checked which of its first segments are in the archive. -/
  | check (total : ℕ) (error : Option (Option WalSegment × ℕ × String))
    (message : Option String)
  /-- A job of the worker ends. -/
  | job (file : WalSegment) (result : ArchiveGetJobResult B)
  /-- The worker goes on. -/
  | async
  /-- The worker fails. -/
  | fail (code : ℕ) (message : String)

/-- Is a missing WAL segment retried? -/
def ArchiveGet.missingRetry (param : ArchiveGetParam) (s : ArchiveGet B) : Bool :=
  s.first && param.archiveMissingRetry

/-- The next file operation of `cmdArchiveGet`. -/
def archiveGetNext (param : ArchiveGetParam) (s : ArchiveGet B) : Option (ArchiveGet B) :=
  match s.phase with
  | .segment =>
    some { s with found := (s.spool.segment param.walSegment).isSome, phase := .okFile }
  | .okFile =>
    some { s with
      phase := if (s.spool.ok param.walSegment).isSome then .okRemove else .errorFile }
  | .errorFile =>
    -- errors are not thrown on the first run
    if ((s.spool.error param.walSegment).isSome || s.spool.globalError.isSome) && !s.first then
      some { s with phase := .thrown }
    else some { s with phase := if s.found then .move else .fork }
  | .okRemove =>
    some { s with
      spool := { s.spool with ok := Function.update s.spool.ok param.walSegment none }
      phase :=
        if !s.found && !s.missingRetry param then .notFound
        else if s.found then .move else .fork }
  | .move =>
    match s.spool.segment param.walSegment with
    | some content =>
      some { s with
        spool := { s.spool with
          segment := Function.update s.spool.segment param.walSegment none }
        destination := some content
        phase := .fork }
    | none => some { s with phase := .thrown }
  | _ => none

/-- Fork the worker if this is needed and possible, and go on with the loop. -/
def archiveGetFork (param : ArchiveGetParam) (queueFull acquired : Bool) (s : ArchiveGet B) :
    ArchiveGet B :=
  let s :=
    if !s.forked && (!s.found || !queueFull) && acquired then
      let ideal := queueIdeal param.walSegment s.found param.archiveGetQueueMax param.walSegmentSize
      { s with
        spool := queueClean ideal s.spool
        worker := .forked (queueNeed ideal s.spool)
        forked := true }
    else s
  if s.found then { s with phase := .found } else { s with first := false, phase := .wait }

def archiveOkContent (warning : Option String) : String :=
  match warning with
  | some warning => "0\n" ++ warning
  | none => ""

def archiveErrorContent (code : ℕ) (message : String) : String :=
  toString code ++ "\n" ++ message

/-- `archiveAsyncStatusOkWrite`. -/
def ArchiveSpool.okWrite (spool : ArchiveSpool B) (file : WalSegment) (warning : Option String) :
    ArchiveSpool B :=
  { spool with ok := Function.update spool.ok file (some (archiveOkContent warning)) }

/-- `archiveAsyncStatusErrorWrite`. -/
def ArchiveSpool.errorWrite (spool : ArchiveSpool B) (file : Option WalSegment) (code : ℕ)
    (message : String) : ArchiveSpool B :=
  match file with
  | some file =>
    { spool with error := Function.update spool.error file (some (archiveErrorContent code message)) }
  | none => { spool with globalError := some (archiveErrorContent code message) }

/-- What the worker does after the files that were found. -/
def archiveGetLast (total : ℕ) (queue : List WalSegment)
    (error : Option (Option WalSegment × ℕ × String)) (message : Option String) : ArchiveGetLast :=
  match error, queue[total]? with
  | some (file, code, message), _ => .error file code message
  | none, some file => .missing file message
  | none, none => .nothing

def archiveGetJob (s : ArchiveGet B) (file : WalSegment) (jobs : List WalSegment)
    (last : ArchiveGetLast) : ArchiveGetJobResult B → ArchiveGet B
  | .ok content warning =>
    { s with
      spool := { s.spool with temp := Function.update s.spool.temp file (some content) }
      fetched := Function.update s.fetched file (some content)
      worker :=
        if warning = "" then .rename file (jobs.erase file) last
        else .okWrite file warning (jobs.erase file) last }
  | .error code message =>
    { s with
      spool := s.spool.errorWrite (some file) code message
      worker := .running (jobs.erase file) last }

/-- The next file operation of `cmdArchiveGetAsync`. -/
def archiveGetAsyncNext (s : ArchiveGet B) : Option (ArchiveGet B) :=
  match s.worker with
  | .okWrite file warning jobs last =>
    some { s with
      spool := s.spool.okWrite file (some warning)
      worker := .rename file jobs last }
  | .rename file jobs last =>
    some { s with
      spool := { s.spool with
        segment := Function.update s.spool.segment file (s.spool.temp file)
        temp := Function.update s.spool.temp file none }
      worker := .running jobs last }
  | .running [] (.error file code message) =>
    some { s with spool := s.spool.errorWrite file code message, worker := .exited }
  | .running [] (.missing file message) =>
    some { s with spool := s.spool.okWrite file message, worker := .exited }
  | .running [] .nothing => some { s with worker := .exited }
  | _ => none

/-- One step of the two processes. -/
def archiveGetStep (param : ArchiveGetParam) (s : ArchiveGet B) :
    ArchiveGetEvent B → Option (ArchiveGet B)
  | .get => archiveGetNext param s
  | .fork queueFull acquired =>
    match s.phase with
    | .fork => some (archiveGetFork param queueFull acquired s)
    | _ => none
  | .wait more =>
    match s.phase with
    | .wait => some { s with phase := if more then .segment else .thrown }
    | _ => none
  | .throw =>
    match s.phase with
    | .found | .notFound | .thrown => none
    | _ => some { s with phase := .thrown }
  | .check total error message =>
    match s.worker with
    | .forked queue =>
      some { s with
        worker := .running (queue.take total) (archiveGetLast total queue error message) }
    | _ => none
  | .job file result =>
    match s.worker with
    | .running jobs last => if file ∈ jobs then some (archiveGetJob s file jobs last result) else none
    | _ => none
  | .async => archiveGetAsyncNext s
  | .fail code message =>
    match s.worker with
    | .none | .exited => none
    | _ => some { s with spool := s.spool.errorWrite none code message, worker := .exited }

/-- The foreground process has started, with any files in the spool. -/
def archiveGetInitial (spool : ArchiveSpool B) : ArchiveGet B where
  spool := spool
  destination := none
  phase := .segment
  first := true
  found := false
  forked := false
  worker := .none
  fetched := fun _ => none

end PgxBackup
