import PgxBackup.Text

/-!
# Command locks

`cmdLockAcquire` takes the locks of a command: one for each lock type of the
command and each repository, or those of the `lock` option. Each lock is a
file, and another process may hold any of the files.

With `returnOnNoLock` a lock that another process holds is reported by the
result `false` instead of an error. The loop over the names goes on after
such a lock and keeps the result of the last name alone; what was acquired
before is not released. So the result speaks of the whole list just when
there is one outcome for all the names: with a mixed outcome either the flag
`held` is set though a lock is missing, or locks stay in the list of the
process and every further attempt ends with "already held".
-/

namespace PgxBackup

open List

/-- A lock that the process holds. -/
structure LockFile where
  name : Str
  /-- The descriptor is `LOCK_ON_EXEC_ID`: the file is locked by a process
  with the same exec-id. -/
  onExecId : Bool
  deriving DecidableEq

/-- `lockLocal` and `cmdLockLocal`. -/
structure LockLocal where
  lockList : List LockFile
  held : Bool
  deriving DecidableEq

/-- Before the first lock. -/
def LockLocal.init : LockLocal := ⟨[], false⟩

def LockLocal.holds (s : LockLocal) (name : Str) : Prop := ∃ f ∈ s.lockList, f.name = name

instance (s : LockLocal) (name : Str) : Decidable (s.holds name) :=
  inferInstanceAs (Decidable (∃ f ∈ s.lockList, f.name = name))

/-- What the system says when a lock file is opened and locked. -/
inductive LockOutcome
  /-- The file is locked and the lock data was written, or writing failed. -/
  | locked (writeError : Option Error)
  /-- `flock` failed, and the exec-id in the file is that of this process. -/
  | execId
  /-- The file cannot be opened or locked. -/
  | denied (errNo : ℕ)
  deriving DecidableEq

/-- `EWOULDBLOCK`: another process holds the lock. -/
def ewouldblock : ℕ := 11

/-- `EACCES`. -/
def eacces : ℕ := 13

namespace LockOutcome

def acquired : LockOutcome → Bool
  | locked none => true
  | locked (some _) => false
  | execId => true
  | denied _ => false

/-- Another process holds the lock. -/
def busy (outcome : LockOutcome) : Bool := outcome = denied ewouldblock

end LockOutcome

/-- What the messages of `lockAcquire` name. -/
structure LockEnv where
  path : Str
  strerror : ℕ → Str
  userName : Str
  groupName : Str

/-- The path of a lock file (`storagePathP`). -/
def LockEnv.filePath (env : LockEnv) (lockFileName : Str) : Str :=
  env.path ++ '/' :: lockFileName

/-- The error of a lock that was not acquired. -/
def LockEnv.acquireError (env : LockEnv) (lockFileName : Str) (errNo : ℕ) : Error where
  type := .lockAcquireError
  message := "unable to acquire lock on file '".toList ++ env.filePath lockFileName
    ++ "': ".toList ++ env.strerror errNo ++
    if errNo = ewouldblock then "\nHINT: is another pgxbackup process running?".toList
    else if errNo = eacces then
      "\nHINT: does '".toList ++ env.userName ++ [':'] ++ env.groupName
        ++ "' running pgxbackup have permissions on the '".toList
        ++ env.filePath lockFileName ++ "' file?".toList
    else []

/-- Acquire a lock (`lockAcquire`). An error leaves the changes behind that
were made before it. -/
def lockAcquire (env : LockEnv) (returnOnNoLock : Bool) (outcome : LockOutcome)
    (lockFileName : Str) (s : LockLocal) : Except Error Bool × LockLocal :=
  if s.holds lockFileName then
    (.error ⟨.assertError, "lock on file '".toList ++ lockFileName
      ++ "' already held".toList⟩, s)
  else
    match outcome with
    | .denied errNo =>
      if returnOnNoLock && errNo = ewouldblock then (.ok false, s)
      else (.error (env.acquireError lockFileName errNo), s)
    | .execId => (.ok true, { s with lockList := s.lockList ++ [⟨lockFileName, true⟩] })
    | .locked writeError =>
      (match writeError with
        | none => .ok true
        | some e => .error e,
        { s with lockList := s.lockList ++ [⟨lockFileName, false⟩] })

/-- Release all locks (`lockRelease`), given the errors of the removals. -/
def lockReleaseList (removeError : Str → Option Error) : List LockFile →
    Except Error Unit × List LockFile
  | [] => (.ok (), [])
  | f :: lockList =>
    match if f.onExecId then none else removeError f.name with
    | some e => (.error e, f :: lockList)
    | none => lockReleaseList removeError lockList

/-- `lockRelease`. -/
def lockRelease (returnOnNoLock : Bool) (removeError : Str → Option Error) (s : LockLocal) :
    Except Error Bool × LockLocal :=
  if s.lockList = [] then
    (if returnOnNoLock then .ok false
      else .error ⟨.assertError, "no lock is held by this process".toList⟩, s)
  else
    ((lockReleaseList removeError s.lockList).1.map fun _ => true,
      { s with lockList := (lockReleaseList removeError s.lockList).2 })

/-! ## The locks of a command -/

/-- `LockType`, without `lockTypeAll` and `lockTypeNone`. -/
inductive LockType
  | archive
  | backup
  | restore
  deriving DecidableEq

/-- `lockTypeName`. -/
def lockTypeName : LockType → Str
  | .archive => "archive".toList
  | .backup => "backup".toList
  | .restore => "restore".toList

/-- Generate lock file name (`cmdLockFileName`). -/
def cmdLockFileName (stanza : Str) (lockType : LockType) (repoKey : ℕ) : Str :=
  stanza ++ ['-'] ++ lockTypeName lockType ++ ['-'] ++ Nat.toDigits 10 repoKey
    ++ ".lock".toList

/-- What the locks of a command depend on. -/
structure LockConfig where
  stanza : Str
  /-- `cfgLockType`, `none` for `lockTypeAll`. -/
  lockType : Option LockType
  /-- The keys of the repositories. -/
  repoKey : List ℕ
  repoKey_ne : repoKey ≠ []
  /-- The repository that the option `repo` selects. -/
  repoIdx : Option (Fin repoKey.length)
  /-- The option `lock`. -/
  lock : Option (List Str)
  lock_ne : lock ≠ some []

namespace LockConfig

/-- `cmdLockList`. -/
def cmdLockList (cfg : LockConfig) : List Str :=
  (match cfg.lockType with
    | none => [LockType.archive, .backup, .restore]
    | some lockType => [lockType]).flatMap fun lockType =>
    (match cfg.repoIdx with
      | some repoIdx => [cfg.repoKey.get repoIdx]
      | none => cfg.repoKey).map (cmdLockFileName cfg.stanza lockType)

/-- The locks that `cmdLockAcquire` acquires. -/
def lockList (cfg : LockConfig) : List Str :=
  cfg.lock.getD cfg.cmdLockList

theorem lockList_ne (cfg : LockConfig) : cfg.lockList ≠ [] := by
  unfold lockList
  cases hlock : cfg.lock with
  | some l =>
    show l ≠ []
    rintro rfl
    exact cfg.lock_ne hlock
  | none =>
    show cfg.cmdLockList ≠ []
    unfold cmdLockList
    cases cfg.repoIdx <;> cases cfg.lockType <;> simp [cfg.repoKey_ne]

end LockConfig

section

variable (env : LockEnv) (returnOnNoLock : Bool) (outcome : Str → LockOutcome)

/-- The loop of `cmdLockAcquire`. -/
def cmdLockAcquireList : List Str → Bool → LockLocal → Except Error Bool × LockLocal
  | [], result, s => (.ok result, s)
  | lockFileName :: lockList, _, s =>
    match lockAcquire env returnOnNoLock (outcome lockFileName) lockFileName s with
    | (.ok result, s') => cmdLockAcquireList lockList result s'
    | (.error e, s') => (.error e, s')

/-- Acquire the locks of the command (`cmdLockAcquire`). The assertion that
excludes `lockTypeAll` together with `returnOnNoLock` is not part of the
program that is installed. -/
def cmdLockAcquire (cfg : LockConfig) (s : LockLocal) : Except Error Bool × LockLocal :=
  if s.held then
    (.error ⟨.assertError, "lock is already held by this process".toList⟩, s)
  else
    match cmdLockAcquireList env returnOnNoLock outcome cfg.lockList true s with
    | (.ok result, s') => (.ok result, { s' with held := result })
    | (.error e, s') => (.error e, s')

end

/-- Release the locks of the command (`cmdLockRelease`). -/
def cmdLockRelease (returnOnNoLock : Bool) (removeError : Str → Option Error) (s : LockLocal) :
    Except Error Bool × LockLocal :=
  if s.held then
    match lockRelease returnOnNoLock removeError s with
    | (.ok result, s') => (.ok result, { s' with held := false })
    | (.error e, s') => (.error e, s')
  else if returnOnNoLock then (.ok true, s)
  else (.error ⟨.assertError, "no lock is held by this process".toList⟩, s)

/-! ## What the loop does -/

/-- The entry that an outcome adds to the lock list. -/
def LockOutcome.entry (outcome : Str → LockOutcome) (name : Str) : Option LockFile :=
  match outcome name with
  | .locked none => some ⟨name, false⟩
  | .locked (some _) => none
  | .execId => some ⟨name, true⟩
  | .denied _ => none

theorem LockOutcome.entry_of_acquired {outcome : Str → LockOutcome} {name : Str}
    (h : (outcome name).acquired) : ∃ f, entry outcome name = some f ∧ f.name = name := by
  unfold entry
  cases houtcome : outcome name with
  | locked writeError =>
    cases writeError with
    | none => exact ⟨_, rfl, rfl⟩
    | some e => rw [houtcome] at h; cases h
  | execId => exact ⟨_, rfl, rfl⟩
  | denied errNo => rw [houtcome] at h; cases h

theorem LockOutcome.entry_of_not_acquired {outcome : Str → LockOutcome} {name : Str}
    (h : (outcome name).acquired = false) : entry outcome name = none := by
  unfold entry
  cases houtcome : outcome name with
  | locked writeError =>
    cases writeError with
    | none => rw [houtcome] at h; cases h
    | some e => rfl
  | execId => rw [houtcome] at h; cases h
  | denied errNo => rfl

section

variable {env : LockEnv} {outcome : Str → LockOutcome}

variable {name : Str} {s : LockLocal}

theorem lockAcquire_acquired {returnOnNoLock : Bool} {f : LockFile}
    (hfree : ¬ s.holds name) (h : LockOutcome.entry outcome name = some f) :
    lockAcquire env returnOnNoLock (outcome name) name s
      = (.ok true, { s with lockList := s.lockList ++ [f] }) := by
  unfold LockOutcome.entry at h
  unfold lockAcquire
  rw [if_neg hfree]
  cases houtcome : outcome name with
  | locked writeError =>
    rw [houtcome] at h
    cases writeError with
    | none => cases h; rfl
    | some e => cases h
  | execId => rw [houtcome] at h; cases h; rfl
  | denied errNo => rw [houtcome] at h; cases h

theorem lockAcquire_busy (hfree : ¬ s.holds name)
    (h : (outcome name).busy) :
    lockAcquire env true (outcome name) name s = (.ok false, s) := by
  unfold lockAcquire
  rw [if_neg hfree, of_decide_eq_true h]
  rfl

theorem lockAcquire_held {returnOnNoLock : Bool}
    (h : s.holds name) :
    lockAcquire env returnOnNoLock (outcome name) name s
      = (.error ⟨.assertError, "lock on file '".toList ++ name ++ "' already held".toList⟩,
          s) := by
  unfold lockAcquire
  rw [if_pos h]

/-- A lock that is neither acquired nor held by another process. -/
theorem lockAcquire_error (env : LockEnv) (s : LockLocal)
    (hacquired : (outcome name).acquired = false) (hbusy : (outcome name).busy = false) :
    ∃ e s', lockAcquire env true (outcome name) name s = (.error e, s') := by
  unfold lockAcquire
  split
  next => exact ⟨_, _, rfl⟩
  next =>
    cases houtcome : outcome name with
    | locked writeError =>
      cases writeError with
      | none => rw [houtcome] at hacquired; cases hacquired
      | some e => exact ⟨_, _, rfl⟩
    | execId => rw [houtcome] at hacquired; cases hacquired
    | denied errNo =>
      have hne : ¬ errNo = ewouldblock := by
        rintro rfl
        rw [houtcome] at hbusy
        cases hbusy
      dsimp only
      rw [if_neg (by simp [hne])]
      exact ⟨_, _, rfl⟩

theorem LockLocal.holds_append {f : LockFile} :
    LockLocal.holds { s with lockList := s.lockList ++ [f] } name
      ↔ s.holds name ∨ f.name = name := by
  unfold LockLocal.holds
  simp [or_and_right, exists_or]

/-- The names of which the loop throws an error: a name that is in the lock
list, that appears once more after it was acquired, or that can be neither
acquired nor is held by another process. -/
def LockThrows (outcome : Str → LockOutcome) (names : List Str) (s : LockLocal) : Prop :=
  ∃ name ∈ names, s.holds name ∨ ((outcome name).acquired ∧ 1 < names.count name)
    ∨ ((outcome name).acquired = false ∧ (outcome name).busy = false)

theorem LockThrows.loop {names : List Str} (h : LockThrows outcome names s)
    (env : LockEnv) (result : Bool) :
    ∃ e s', cmdLockAcquireList env true outcome names result s = (.error e, s') := by
  induction names generalizing s result with
  | nil => obtain ⟨name, hname, _⟩ := h; cases hname
  | cons first names ih =>
    obtain ⟨name, hname, h⟩ := h
    rw [cmdLockAcquireList]
    by_cases hheld : s.holds first
    · rw [lockAcquire_held hheld]
      exact ⟨_, _, rfl⟩
    cases hacquired : (outcome first).acquired with
    | true =>
      obtain ⟨f, hf, hfname⟩ := LockOutcome.entry_of_acquired hacquired
      rw [lockAcquire_acquired hheld hf]
      -- the name is in the list now, so a second one is enough
      refine ih ⟨name, ?_, ?_⟩ _
      · rcases mem_cons.mp hname with rfl | hmem
        · rcases h with h | ⟨_, hcount⟩ | ⟨h, _⟩
          · exact absurd h hheld
          · rw [count_cons_self] at hcount
            exact count_pos_iff.mp (by omega)
          · rw [hacquired] at h; cases h
        · exact hmem
      · by_cases heq : name = first
        · exact .inl (LockLocal.holds_append.mpr (.inr (by rw [hfname, heq])))
        · rw [count_cons_of_ne (Ne.symm heq)] at h
          exact h.imp_left fun h => LockLocal.holds_append.mpr (.inl h)
    | false =>
      cases hbusy : (outcome first).busy with
      | false =>
        obtain ⟨e, s', heq⟩ := lockAcquire_error env s hacquired hbusy
        rw [heq]
        exact ⟨_, _, rfl⟩
      | true =>
        rw [lockAcquire_busy hheld hbusy]
        have hne : name ≠ first := by
          rintro rfl
          rw [hacquired, hbusy] at h
          rcases h with h | ⟨h, _⟩ | ⟨_, h⟩
          · exact hheld h
          · cases h
          · cases h
        rw [count_cons_of_ne (Ne.symm hne)] at h
        exact ih ⟨name, (mem_cons.mp hname).resolve_left hne, h⟩ _

/-- **What the loop does when it throws no error.** The acquired locks are in
the list, and the result is that of the last name. -/
theorem cmdLockAcquireList_eq {names : List Str}
    (h : ¬ LockThrows outcome names s) (result : Bool) :
    cmdLockAcquireList env true outcome names result s
      = (.ok ((names.getLast?.map fun name => (outcome name).acquired).getD result),
          { s with lockList := s.lockList ++ names.filterMap (LockOutcome.entry outcome) }) := by
  induction names generalizing s result with
  | nil => simp [cmdLockAcquireList]
  | cons first names ih =>
    have hfree : ¬ s.holds first := fun hheld => h ⟨first, by simp, .inl hheld⟩
    have hlast : (((first :: names).getLast?).map fun name => (outcome name).acquired).getD result
        = ((names.getLast?.map fun name => (outcome name).acquired).getD
            (outcome first).acquired) := by
      cases names with
      | nil => rfl
      | cons second names => rw [getLast?_cons_cons, getLast?_cons]; rfl
    rw [cmdLockAcquireList, hlast, filterMap_cons]
    cases hacquired : (outcome first).acquired with
    | true =>
      obtain ⟨f, hf, hfname⟩ := LockOutcome.entry_of_acquired hacquired
      rw [lockAcquire_acquired hfree hf, hf]
      have hrest : ¬ LockThrows outcome names { s with lockList := s.lockList ++ [f] } := by
        rintro ⟨name, hname, hthrow⟩
        refine h ⟨name, mem_cons_of_mem _ hname, ?_⟩
        rw [LockLocal.holds_append, hfname] at hthrow
        rcases hthrow with (hheld | rfl) | ⟨ha, hcount⟩ | herror
        · exact .inl hheld
        · refine .inr (.inl ⟨hacquired, ?_⟩)
          rw [count_cons_self]
          have := count_pos_iff.mpr hname
          omega
        · exact .inr (.inl ⟨ha, lt_of_lt_of_le hcount (count_le_count_cons ..)⟩)
        · exact .inr (.inr herror)
      dsimp only
      rw [ih hrest]
      simp
    | false =>
      have hbusy : (outcome first).busy = true := by
        by_contra hbusy
        exact h ⟨first, by simp, .inr (.inr ⟨hacquired, by simpa using hbusy⟩)⟩
      rw [lockAcquire_busy hfree hbusy, LockOutcome.entry_of_not_acquired hacquired]
      have hrest : ¬ LockThrows outcome names s := by
        rintro ⟨name, hname, hthrow⟩
        refine h ⟨name, mem_cons_of_mem _ hname, hthrow.imp_right (Or.imp_left ?_)⟩
        exact fun ⟨ha, hcount⟩ => ⟨ha, lt_of_lt_of_le hcount (count_le_count_cons ..)⟩
      exact ih hrest _

end

/-- A release whose removals all succeed leaves no lock. -/
theorem lockReleaseList_ok {removeError : Str → Option Error}
    (h : ∀ name, removeError name = none) (lockList : List LockFile) :
    lockReleaseList removeError lockList = (.ok (), []) := by
  induction lockList with
  | nil => rfl
  | cons f lockList ih =>
    rw [lockReleaseList, h, ite_self]
    exact ih

theorem cmdLockRelease_ok {removeError : Str → Option Error}
    (h : ∀ name, removeError name = none) {returnOnNoLock : Bool} {s : LockLocal}
    (hheld : s.held = true) (hlist : s.lockList ≠ []) :
    cmdLockRelease returnOnNoLock removeError s = (.ok true, .init) := by
  unfold cmdLockRelease lockRelease
  rw [if_pos hheld, if_neg hlist, lockReleaseList_ok h]
  rfl

/-! ## All or nothing -/

namespace LockConfig

variable (env : LockEnv) (outcome : Str → LockOutcome) (cfg : LockConfig)

/-- The first `cmdLockAcquire` of the process acquires all locks or none: with
the result true all names are in the lock list and a release removes them,
with the result false none is and a later call does what a first call does. -/
structure AllOrNothing : Prop where
  all : ∀ s, cmdLockAcquire env true outcome cfg .init = (.ok true, s) →
    s.held = true ∧ (∀ name ∈ cfg.lockList, s.holds name) ∧
      ∀ returnOnNoLock removeError, (∀ name, removeError name = none) →
        cmdLockRelease returnOnNoLock removeError s = (.ok true, .init)
  nothing : ∀ s, cmdLockAcquire env true outcome cfg .init = (.ok false, s) →
    s.held = false ∧ (∀ name ∈ cfg.lockList, ¬ s.holds name) ∧
      ∀ later, cmdLockAcquire env true later cfg s = cmdLockAcquire env true later cfg .init

variable {env outcome cfg}

theorem cmdLockAcquire_throws (env : LockEnv) (h : LockThrows outcome cfg.lockList .init) :
    ∃ e s, cmdLockAcquire env true outcome cfg .init = (.error e, s) := by
  obtain ⟨e, s, heq⟩ := h.loop env true
  refine ⟨e, s, ?_⟩
  show (match cmdLockAcquireList env true outcome cfg.lockList true .init with
    | (.ok result, s') => (Except.ok result, { s' with held := result })
    | (.error e, s') => (.error e, s')) = _
  rw [heq]

theorem cmdLockAcquire_eq (env : LockEnv) (h : ¬ LockThrows outcome cfg.lockList .init) :
    cmdLockAcquire env true outcome cfg .init
      = (.ok (outcome (cfg.lockList.getLast cfg.lockList_ne)).acquired,
          ⟨cfg.lockList.filterMap (LockOutcome.entry outcome),
            (outcome (cfg.lockList.getLast cfg.lockList_ne)).acquired⟩) := by
  show (match cmdLockAcquireList env true outcome cfg.lockList true .init with
    | (.ok result, s') => (Except.ok result, { s' with held := result })
    | (.error e, s') => (.error e, s')) = _
  rw [cmdLockAcquireList_eq h, getLast?_eq_getLast_of_ne_nil cfg.lockList_ne]
  rfl

/-- The names in the list after a call that returns are those acquired. -/
theorem holds_filterMap {names : List Str} {name : Str} (hname : name ∈ names) {held : Bool} :
    LockLocal.holds ⟨names.filterMap (LockOutcome.entry outcome), held⟩ name
      ↔ (outcome name).acquired = true := by
  constructor
  · rintro ⟨f, hf, rfl⟩
    obtain ⟨other, _, hentry⟩ := mem_filterMap.mp hf
    cases hacquired : (outcome other).acquired with
    | true =>
      obtain ⟨g, hg, hgname⟩ := LockOutcome.entry_of_acquired hacquired
      rw [hg] at hentry
      cases hentry
      rw [hgname, hacquired]
    | false => rw [LockOutcome.entry_of_not_acquired hacquired] at hentry; cases hentry
  · intro hacquired
    obtain ⟨f, hf, hfname⟩ := LockOutcome.entry_of_acquired hacquired
    exact ⟨f, mem_filterMap.mpr ⟨name, hname, hf⟩, hfname⟩

/-- **When `cmdLockAcquire` is all-or-nothing.** Exactly when every lock is
acquired, when none is, or when an error is thrown. -/
theorem allOrNothing_iff :
    AllOrNothing env outcome cfg ↔
      (∀ name ∈ cfg.lockList, (outcome name).acquired = true) ∨
      (∀ name ∈ cfg.lockList, (outcome name).acquired = false) ∨
      LockThrows outcome cfg.lockList .init := by
  by_cases hthrow : LockThrows outcome cfg.lockList .init
  · refine iff_of_true ?_ (.inr (.inr hthrow))
    obtain ⟨e, s, heq⟩ := cmdLockAcquire_throws env hthrow
    constructor
    · intro s' h
      rw [heq] at h
      cases h
    · intro s' h
      rw [heq] at h
      cases h
  have heq := cmdLockAcquire_eq env hthrow
  have hlast := getLast_mem cfg.lockList_ne
  have hmem : ∀ {held name}, name ∈ cfg.lockList →
      (LockLocal.holds ⟨cfg.lockList.filterMap (LockOutcome.entry outcome), held⟩ name
        ↔ (outcome name).acquired = true) := fun h => holds_filterMap h
  cases hresult : (outcome (cfg.lockList.getLast cfg.lockList_ne)).acquired with
  | true =>
    rw [hresult] at heq
    constructor
    · intro h
      refine .inl fun name hname => ?_
      exact (hmem hname).mp ((h.all _ heq).2.1 name hname)
    · intro h
      have hall : ∀ name ∈ cfg.lockList, (outcome name).acquired = true := by
        rcases h with h | h | h
        · exact h
        · rw [h _ hlast] at hresult; cases hresult
        · exact absurd h hthrow
      constructor
      · intro s hs
        rw [heq] at hs
        cases hs
        refine ⟨rfl, fun name hname => (hmem hname).mpr (hall name hname), ?_⟩
        intro returnOnNoLock removeError hremove
        refine cmdLockRelease_ok hremove rfl fun hnil => ?_
        obtain ⟨f, hf, _⟩ := (@hmem true _ hlast).mpr hresult
        rw [hnil] at hf
        cases hf
      · intro s hs
        rw [heq] at hs
        cases hs
  | false =>
    rw [hresult] at heq
    constructor
    · intro h
      refine .inr (.inl fun name hname => ?_)
      have hfree := (h.nothing _ heq).2.1 name hname
      rw [hmem hname] at hfree
      simpa using hfree
    · intro h
      have hnone : ∀ name ∈ cfg.lockList, (outcome name).acquired = false := by
        rcases h with h | h | h
        · rw [h _ hlast] at hresult; cases hresult
        · exact h
        · exact absurd h hthrow
      have hempty : cfg.lockList.filterMap (LockOutcome.entry outcome) = [] :=
        filterMap_eq_nil_iff.mpr fun name hname =>
          LockOutcome.entry_of_not_acquired (hnone name hname)
      rw [hempty] at heq
      constructor
      · intro s hs
        rw [heq] at hs
        cases hs
      · intro s hs
        rw [heq] at hs
        cases hs
        refine ⟨rfl, ?_, fun later => rfl⟩
        rintro name _ ⟨f, hf, _⟩
        cases hf

/-- Two repositories, and another process holds the lock of the second. The
result is false, the first lock stays, and the next attempt of the wait loop
fails though both locks are free by then. -/
theorem cmdLockAcquire_secondBusy :
    let env : LockEnv := ⟨"/tmp/pgxbackup".toList, fun _ => [], [], []⟩
    let cfg : LockConfig := ⟨"main".toList, some .archive, [1, 2], by decide, none, none, by decide⟩
    let outcome : Str → LockOutcome := fun name =>
      if name = "main-archive-2.lock".toList then .denied ewouldblock else .locked none
    let s : LockLocal := ⟨[⟨"main-archive-1.lock".toList, false⟩], false⟩
    cmdLockAcquire env true outcome cfg .init = (.ok false, s) ∧
    cmdLockAcquire env true (fun _ => .locked none) cfg s
      = (.error ⟨.assertError, "lock on file 'main-archive-1.lock' already held".toList⟩, s) ∧
    ¬ AllOrNothing env outcome cfg := by
  intro env cfg outcome s
  have hfirst : cmdLockAcquire env true outcome cfg .init = (.ok false, s) := by
    decide +kernel
  refine ⟨hfirst, by decide +kernel, fun h => ?_⟩
  exact (h.nothing _ hfirst).2.1 "main-archive-1.lock".toList (by decide +kernel)
    (by decide +kernel)

end LockConfig

end PgxBackup
