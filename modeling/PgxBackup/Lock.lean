import Mathlib.Data.Nat.Notation
import Mathlib.Logic.Function.Basic
import PgxBackup.Steps

/-!
# Lock files

A process holds a lock when it has an exclusive `flock` on the file with the
name of the lock. The lock belongs to the inode, but processes find it by
its name: `lockAcquire` opens the name, creating the file if there is none,
and then locks what it has opened; `lockRelease` removes the name and then
closes the descriptor.

The processes are interleaved one system call at a time. A process may die
between any two of them; its descriptors are then closed.
-/

namespace PgxBackup

/-- Where a process is in `lockAcquire` and `lockRelease`. -/
inductive LockPhase (E : Type)
  /-- No lock is held. -/
  | idle
  /-- `lockAcquire`: the file is open. -/
  | opened (inode : ℕ)
  /-- `lockAcquire`: `flock` succeeded, the lock data is not written. -/
  | locked (inode : ℕ)
  /-- `lockAcquire`: `flock` failed. -/
  | denied (inode : ℕ)
  /-- `lockAcquire`: `flock` failed and the exec-id was read. -/
  | deniedRead (inode : ℕ) (execId : Option E)
  /-- `lockAcquire` has returned true. -/
  | holding (inode : ℕ)
  /-- `lockAcquire` has returned true since the holder has the same exec-id
  (`LOCK_ON_EXEC_ID`). -/
  | holdingExecId
  /-- `lockRelease` has begun. -/
  | releasing (inode : ℕ)
  /-- `lockRelease`: the name is removed. -/
  | unlinked (inode : ℕ)
  /-- The process has died. -/
  | dead
  deriving DecidableEq

/-- Where a process is in `lockRead`. -/
inductive LockReadPhase
  | none
  /-- The file is open. -/
  | opened (inode : ℕ)
  /-- `flock` succeeded: nobody holds the lock. -/
  | locked (inode : ℕ)
  /-- `flock` failed. -/
  | denied (inode : ℕ)
  deriving DecidableEq

/-- A descriptor of a process: that of `lockAcquire` or that of `lockRead`. -/
structure LockFd where
  process : ℕ
  read : Bool
  deriving DecidableEq

/-- The file system and the processes. -/
structure LockState (E : Type) where
  /-- The inode with the name of the lock file. -/
  name : Option ℕ
  /-- The inode that the next new file gets. -/
  inodeNext : ℕ
  /-- The descriptor that has the exclusive lock on an inode. -/
  flock : ℕ → Option LockFd
  /-- The exec-id in a file, if it can be read. -/
  content : ℕ → Option E
  phase : ℕ → LockPhase E
  read : ℕ → LockReadPhase

/-- A system call of a process, or one of the points that the property is
about. -/
inductive LockCall
  /-- `open` with `O_CREAT` in `lockAcquire`. -/
  | openCreate
  /-- `flock` with `LOCK_EX | LOCK_NB` in `lockAcquire`. -/
  | flock
  /-- Read the lock data after `flock` failed; the read may fail. -/
  | readData (fails : Bool)
  /-- Close the file after `flock` failed, which ends `lockAcquire`. -/
  | closeDenied
  /-- Write the lock data, in `lockAcquire` or in a later `lockWrite`. -/
  | write
  /-- Truncate the file in a later `lockWrite`. -/
  | truncate
  /-- Begin `lockRelease`. -/
  | release
  /-- `unlink` in `lockRelease`. -/
  | unlink
  /-- `close` in `lockRelease`. -/
  | close
  /-- `open` in `lockRead`. -/
  | readOpen
  /-- `flock` in `lockRead`. -/
  | readFlock
  /-- `close` in `lockRead`. -/
  | readClose
  /-- The process dies. -/
  | die
  deriving DecidableEq

variable {E : Type}

namespace LockState

/-- Change the phase of a process. -/
def setPhase (s : LockState E) (p : ℕ) (phase : LockPhase E) : LockState E :=
  { s with phase := Function.update s.phase p phase }

/-- Change the phase of `lockRead` of a process. -/
def setRead (s : LockState E) (p : ℕ) (read : LockReadPhase) : LockState E :=
  { s with read := Function.update s.read p read }

/-- Give the lock on an inode to a descriptor. -/
def lock (s : LockState E) (inode : ℕ) (fd : LockFd) : LockState E :=
  { s with flock := Function.update s.flock inode (some fd) }

/-- Closing a descriptor gives up the lock it has. -/
def unlock (s : LockState E) (inode : ℕ) (fd : LockFd) : LockState E :=
  if s.flock inode = some fd then { s with flock := Function.update s.flock inode none } else s

/-- Change the content of a file. -/
def setContent (s : LockState E) (inode : ℕ) (content : Option E) : LockState E :=
  { s with content := Function.update s.content inode content }

end LockState

/-- `open` with `O_CREAT`. -/
def lockOpenCreate (s : LockState E) (p : ℕ) : LockState E :=
  match s.name with
  | some inode => s.setPhase p (.opened inode)
  | none =>
    { s.setPhase p (.opened s.inodeNext) with
      name := some s.inodeNext, inodeNext := s.inodeNext + 1 }

/-- The calls of `lockRead`, which a process makes when it is in no other
function. -/
def lockReadStep (s : LockState E) (p : ℕ) (call : LockCall) : Option (LockState E) :=
  match s.read p, call with
  | .none, .readOpen => s.name.map (fun inode => s.setRead p (.opened inode))
  | .opened inode, .readFlock =>
    if s.flock inode = none then some ((s.lock inode ⟨p, true⟩).setRead p (.locked inode))
    else some (s.setRead p (.denied inode))
  | .locked inode, .readClose => some ((s.unlock inode ⟨p, true⟩).setRead p .none)
  | .denied _, .readClose => some (s.setRead p .none)
  | _, _ => none

/-- The calls of `lockAcquire`, `lockWrite` and `lockRelease`. -/
def lockAcquireStep [DecidableEq E] (execId : ℕ → E) (s : LockState E) (p : ℕ) (call : LockCall) :
    Option (LockState E) :=
  match s.phase p, call with
  | .idle, .openCreate => some (lockOpenCreate s p)
  | .opened inode, .flock =>
    if s.flock inode = none then some ((s.lock inode ⟨p, false⟩).setPhase p (.locked inode))
    else some (s.setPhase p (.denied inode))
  | .locked inode, .write =>
    some ((s.setContent inode (some (execId p))).setPhase p (.holding inode))
  | .denied inode, .readData fails =>
    some (s.setPhase p (.deniedRead inode (if fails then none else s.content inode)))
  | .deniedRead _ id, .closeDenied =>
    -- the lock is held by a process with the same exec-id, or it is not acquired
    some (s.setPhase p (if id = some (execId p) then .holdingExecId else .idle))
  | .holding inode, .truncate => some (s.setContent inode none)
  | .holding inode, .write => some (s.setContent inode (some (execId p)))
  | .holding inode, .release => some (s.setPhase p (.releasing inode))
  | .holdingExecId, .release => some (s.setPhase p .idle)
  | .releasing inode, .unlink => some ({ s with name := none }.setPhase p (.unlinked inode))
  | .unlinked inode, .close => some ((s.unlock inode ⟨p, false⟩).setPhase p .idle)
  | _, _ => none

/-- May a process call `lockRead`? -/
def LockPhase.canRead : LockPhase E → Bool
  | .idle | .holding _ | .holdingExecId => true
  | _ => false

/-- The descriptors of a process that has died are closed. -/
def lockDie (s : LockState E) (p : ℕ) : LockState E :=
  { s with
    flock := fun inode => (s.flock inode).filter (fun fd => fd.process ≠ p)
    phase := Function.update s.phase p .dead
    read := Function.update s.read p .none }

/-- One system call of one process. -/
def lockStep [DecidableEq E] (execId : ℕ → E) (s : LockState E) :
    ℕ × LockCall → Option (LockState E)
  | (p, .die) => if s.phase p = .dead then none else some (lockDie s p)
  | (p, call) =>
    if s.read p = .none then
      if call = .readOpen then if (s.phase p).canRead then lockReadStep s p call else none
      else lockAcquireStep execId s p call
    else lockReadStep s p call

/-- No lock file and no process in a function. -/
def lockInitial : LockState E := ⟨none, 0, fun _ => none, fun _ => none, fun _ => .idle, fun _ => .none⟩

/-- Has `lockAcquire` returned true, and `lockRelease` not begun? -/
def LockPhase.holds : LockPhase E → Bool
  | .holding _ | .holdingExecId => true
  | _ => false

end PgxBackup
