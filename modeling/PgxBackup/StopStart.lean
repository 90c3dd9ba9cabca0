import PgxBackup.LockCommand
import PgxBackup.QueueNeed

/-!
# Stop and start

`cmdStop` puts a stop file into the lock path. With `force` it then reads and
removes the lock files of its stanza and sends a signal to the processes that
hold them. A file belongs to the stanza if its name begins with the stanza and
a dash; but a stanza may have a dash in its name, so the stop of `a` also ends
what runs for `a-b`. The stop file of all stanzas is that of a stanza `all`.

The names of files are compared as they are: that the system takes `a//b` for
`a/b` is not part of the model.
-/

namespace PgxBackup

open List

/-- `LockReadStatus`, with the process that is found in the file. -/
inductive LockReadStatus
  | missing
  | unlocked
  | invalid
  | valid (processId : ℤ)

/-- The files of the lock path that can be opened, and what each of them is. -/
structure LockPath where
  names : List Str
  status : Str → LockReadStatus

def LockPath.Holds (path : LockPath) (name : Str) (processId : ℤ) : Prop :=
  name ∈ path.names ∧ path.status name = .valid processId

/-- `lockRead` with `remove`. -/
def lockRead (path : LockPath) (lockFileName : Str) : LockReadStatus × LockPath :=
  (if lockFileName ∈ path.names then path.status lockFileName else .missing,
    { path with names := path.names.filter (· ≠ lockFileName) })

/-- The name of the stop file in the lock path (`lockStopFileName`). -/
def lockStopFileName (stanza : Option Str) : Str := stanza.getD "all".toList ++ ".stop".toList

/-- Is the stanza stopped, or all of them? (`lockStopTest`) -/
def lockStopTest (path : LockPath) (stanza : Option Str) : Except Error Unit := do
  if let some stanza := stanza then
    if lockStopFileName (some stanza) ∈ path.names then
      throw ⟨.stopError, "stop file exists for stanza ".toList ++ stanza⟩
  if lockStopFileName none ∈ path.names then
    throw ⟨.stopError, "stop file exists for all stanzas".toList⟩

/-- The lock path, and the processes that a signal was sent to, the last one
first (`pidList`). -/
structure StopState where
  path : LockPath
  pidList : List ℤ

/-- A file is skipped that is no lock file, or one of another stanza. -/
def stopSkips (stanza : Option Str) (lockFile : Str) : Bool :=
  !strEndsWith lockFile ".lock".toList
    || stanza.any (fun stanza => !strBeginsWith lockFile (stanza ++ ['-']))

/-- One turn of the loop of `cmdStop`. -/
def cmdStopFile (stanza : Option Str) (s : StopState) (lockFile : Str) : StopState :=
  if stopSkips stanza lockFile then s
  else
    match lockRead s.path lockFile with
    | (.valid processId, path) =>
      ⟨path, s.pidList.insert processId⟩
    | (_, path) => { s with path }

/-- `cmdStop`. The files of directories in the lock path are not listed. -/
def cmdStop (stanza : Option Str) (force : Bool) (path : LockPath) : StopState :=
  if lockStopFileName stanza ∈ path.names then ⟨path, []⟩
  else
    let path := { path with names := lockStopFileName stanza :: path.names }
    if force then
      (strLstSort (path.names.filter ('/' ∉ ·)) .asc).foldl (cmdStopFile stanza) ⟨path, []⟩
    else ⟨path, []⟩

/-- `cmdStart`. -/
def cmdStart (stanza : Option Str) (path : LockPath) : LockPath :=
  { path with names := path.names.filter (· ≠ lockStopFileName stanza) }

/-! ## The loop -/

/-- What the loop does with the files of a list: those that are not skipped
are removed, and their processes get a signal. -/
structure FilesStopped (stanza : Option Str) (list : List Str) (s result : StopState) : Prop where
  status : result.path.status = s.path.status
  names (name : Str) : name ∈ result.path.names ↔ name ∈ s.path.names ∧
    ¬ (name ∈ list ∧ stopSkips stanza name = false)
  pidList (processId : ℤ) : processId ∈ result.pidList ↔ processId ∈ s.pidList ∨
    ∃ name ∈ list, stopSkips stanza name = false ∧ s.path.Holds name processId
  nodup : s.pidList.Nodup → result.pidList.Nodup

/-- **One file.** -/
theorem cmdStopFile_stopped (stanza : Option Str) (s : StopState) (lockFile : Str) :
    FilesStopped stanza [lockFile] s (cmdStopFile stanza s lockFile) := by
  unfold cmdStopFile lockRead
  cases hskip : stopSkips stanza lockFile with
  | true =>
    refine ⟨rfl, fun name => ?_, fun pid => ?_, id⟩
    · rw [mem_singleton]
      grind
    · simp [hskip]
  | false =>
    by_cases hmem : lockFile ∈ s.path.names
    · rw [if_pos hmem]
      cases hstatus : s.path.status lockFile with
      | missing | unlocked | invalid =>
        refine ⟨rfl, fun name => ?_, fun pid => ?_, id⟩
        · simp
          grind
        · simp [hskip, LockPath.Holds, hstatus]
      | valid pid =>
        refine ⟨rfl, fun name => ?_, fun other => ?_, Nodup.insert⟩
        · simp
          grind
        · simp [hskip, LockPath.Holds, hstatus, hmem, @eq_comm _ pid, or_comm]
    · rw [if_neg hmem]
      refine ⟨rfl, fun name => ?_, fun pid => ?_, id⟩
      · simp
        grind
      · simp [hskip, LockPath.Holds, hmem]

theorem FilesStopped.cons {stanza : Option Str} {lockFile : Str} {list : List Str} {s s' result : StopState}
    (h : FilesStopped stanza [lockFile] s s') (h' : FilesStopped stanza list s' result) :
    FilesStopped stanza (lockFile :: list) s result := by
  refine ⟨h'.status.trans h.status, fun name => ?_, fun pid => ?_, h'.nodup ∘ h.nodup⟩
  · rw [h'.names, h.names]
    simp only [mem_cons, not_mem_nil, or_false]
    tauto
  · rw [h'.pidList, h.pidList]
    simp only [LockPath.Holds, h.names, h.status]
    simp
    grind

theorem foldl_cmdStopFile (stanza : Option Str) (list : List Str) (s : StopState) :
    FilesStopped stanza list s (list.foldl (cmdStopFile stanza) s) := by
  induction list generalizing s with
  | nil => exact ⟨rfl, fun name => by simp, fun pid => by simp, id⟩
  | cons lockFile list ih => exact (cmdStopFile_stopped stanza s lockFile).cons (ih _)

/-! ## One stop -/

/-- A name that `cmdLockFileName` makes for the stanza. -/
def IsLockFile (stanza name : Str) : Prop :=
  ∃ lockType repoKey, name = cmdLockFileName stanza lockType repoKey

theorem stopSkips_lockStopFileName (stanza stopped : Option Str) :
    stopSkips stanza (lockStopFileName stopped) = true := by
  have hext : strEndsWith (lockStopFileName stopped) ".lock".toList = false := by
    refine Bool.eq_false_iff.mpr (fun hends => ?_)
    have ⟨name, hname⟩ := strEndsWith_iff.mp hends
    unfold lockStopFileName at hname
    rw [String.toList_ofList, String.toList_ofList] at hname
    exact absurd (append_inj' hname rfl).2 (by decide)
  rw [stopSkips, hext]
  rfl

theorem stopSkips_lockFile {stanza name : Str} (h : IsLockFile stanza name) :
    stopSkips (some stanza) name = false := by
  obtain ⟨lockType, repoKey, rfl⟩ := h
  have hends : strEndsWith (cmdLockFileName stanza lockType repoKey) ".lock".toList = true :=
    strEndsWith_iff.mpr ⟨_, rfl⟩
  have hbegins : strBeginsWith (cmdLockFileName stanza lockType repoKey) (stanza ++ ['-']) = true := by
    refine isPrefixOf_iff_prefix.mpr ?_
    unfold cmdLockFileName
    simp only [append_assoc]
    exact (prefix_append_right_inj stanza).mpr (prefix_append _ _)
  rw [stopSkips, hends]
  simpa using hbegins

theorem slash_lockFile {stanza name : Str} (h : IsLockFile stanza name) :
    '/' ∈ name ↔ '/' ∈ stanza := by
  obtain ⟨lockType, repoKey, rfl⟩ := h
  have hdigits : '/' ∉ Nat.toDigits 10 repoKey := fun hmem =>
    absurd (Nat.isDigit_of_mem_toDigits (by decide) le_rfl hmem) (by decide)
  have htype : '/' ∉ lockTypeName lockType := by cases lockType <;> decide
  simp [cmdLockFileName, hdigits, htype]

/-- **The files that a stop reads**: if it is forced and not in place already, those
of the lock path itself that end in `.lock` and begin with the stanza and a dash. -/
def StopReads (stanza : Option Str) (force : Bool) (path : LockPath) (name : Str) : Prop :=
  force = true ∧ lockStopFileName stanza ∉ path.names ∧ '/' ∉ name ∧
    ".lock".toList <:+ name ∧ ∀ s ∈ stanza, s ++ ['-'] <+: name

theorem stopReads_iff {stanza : Option Str} {force : Bool} {path : LockPath} {name : Str} :
    StopReads stanza force path name ↔
      force = true ∧ lockStopFileName stanza ∉ path.names ∧ '/' ∉ name ∧ stopSkips stanza name = false := by
  have hskips : stopSkips stanza name = false ↔ ".lock".toList <:+ name ∧ ∀ s ∈ stanza, s ++ ['-'] <+: name := by
    cases stanza with
    | none => simp [stopSkips, strEndsWith]
    | some stanza => simp [stopSkips, strEndsWith, strBeginsWith]
  unfold StopReads
  rw [hskips]

/-- **What a stop does**: the files that it reads are removed, and their
processes get a signal. -/
theorem cmdStop_spec (stanza : Option Str) (force : Bool) (path : LockPath) :
    (∀ processId, processId ∈ (cmdStop stanza force path).pidList ↔
      ∃ name, StopReads stanza force path name ∧ path.Holds name processId) ∧
    (cmdStop stanza force path).pidList.Nodup ∧
    ∀ name, name ∈ (cmdStop stanza force path).path.names ↔
      (name = lockStopFileName stanza ∨ name ∈ path.names) ∧ ¬ StopReads stanza force path name := by
  simp only [stopReads_iff]
  unfold cmdStop
  by_cases hstop : lockStopFileName stanza ∈ path.names
  · rw [if_pos hstop]
    refine ⟨fun pid => by simp [hstop], nodup_nil, fun name => ?_⟩
    grind
  · rw [if_neg hstop]
    cases force with
    | false => exact ⟨fun pid => by simp, nodup_nil, fun name => by simp⟩
    | true =>
      have hskip := stopSkips_lockStopFileName stanza stanza
      have h := foldl_cmdStopFile stanza (strLstSort
        ((lockStopFileName stanza :: path.names).filter ('/' ∉ ·)) .asc)
        ⟨{ path with names := lockStopFileName stanza :: path.names }, []⟩
      refine ⟨fun pid => (h.pidList pid).trans ?_, h.nodup nodup_nil, fun name => (h.names name).trans ?_⟩
      · simp only [mem_strLstSort, mem_filter, LockPath.Holds, mem_cons, decide_eq_true_eq]
        grind
      · simp only [mem_strLstSort, mem_filter, mem_cons, decide_eq_true_eq]
        grind

/-- **The stop of a stanza is confined to it.** -/
structure StopConfined (stanza : Str) (path : LockPath) (result : StopState) : Prop where
  signals (processId : ℤ) : processId ∈ result.pidList ↔
    ∃ name, IsLockFile stanza name ∧ path.Holds name processId
  once : result.pidList.Nodup
  removed : ∀ name ∈ path.names, name ∉ result.path.names → IsLockFile stanza name

/-- What must be so before the stop: it reads lock files of the stanza only,
and it reads those that are held. -/
structure StopAlone (stanza : Str) (path : LockPath) : Prop where
  own : ∀ name ∈ path.names, StopReads (some stanza) true path name → IsLockFile stanza name
  held : ∀ name processId, IsLockFile stanza name → path.Holds name processId →
    StopReads (some stanza) true path name

theorem stopConfined_iff (stanza : Str) (path : LockPath) :
    StopConfined stanza path (cmdStop (some stanza) true path) ↔ StopAlone stanza path := by
  obtain ⟨hsignals, honce, hnames⟩ := cmdStop_spec (some stanza) true path
  constructor
  · intro h
    have hown : ∀ name ∈ path.names, StopReads (some stanza) true path name → IsLockFile stanza name :=
      fun name hmem hreads => h.removed name hmem (fun hkept => ((hnames name).mp hkept).2 hreads)
    refine ⟨hown, fun name pid hname hholds => ?_⟩
    -- the signal came from another lock file of the stanza, perhaps
    obtain ⟨other, hreads, hother⟩ := (hsignals pid).mp ((h.signals pid).mpr ⟨name, hname, hholds⟩)
    have hslash := mt (slash_lockFile (hown other hother.1 hreads)).mpr hreads.2.2.1
    exact stopReads_iff.mpr ⟨rfl, hreads.2.1, mt (slash_lockFile hname).mp hslash, stopSkips_lockFile hname⟩
  · intro h
    refine ⟨fun pid => (hsignals pid).trans ⟨?_, ?_⟩, honce, fun name hmem hnot => ?_⟩
    · rintro ⟨name, hreads, hholds⟩
      exact ⟨name, h.own name hholds.1 hreads, hholds⟩
    · rintro ⟨name, hname, hholds⟩
      exact ⟨name, h.held name pid hname hholds, hholds⟩
    · by_contra hother
      exact hnot ((hnames name).mpr ⟨.inr hmem, mt (h.own name hmem) hother⟩)

theorem dash_inj {a b c d : Str} (hb : '-' ∉ b) (hd : '-' ∉ d)
    (h : a ++ ['-'] ++ b = c ++ ['-'] ++ d) : a = c ∧ b = d := by
  simp only [append_assoc, singleton_append] at h
  rcases append_eq_append_iff.mp h with ⟨e, rfl, he⟩ | ⟨e, rfl, he⟩
  all_goals
    cases e with
    | nil => exact ⟨by simp, by simpa [eq_comm] using he⟩
    | cons x e =>
      rw [cons_append, cons.injEq] at he
      simp [he.2] at hb hd

/-- **Different locks have files of different names.** -/
theorem cmdLockFileName_inj {stanza stanza' : Str} {lockType lockType' : LockType}
    {repoKey repoKey' : ℕ}
    (h : cmdLockFileName stanza lockType repoKey = cmdLockFileName stanza' lockType' repoKey') :
    stanza = stanza' ∧ lockType = lockType' ∧ repoKey = repoKey' := by
  have hdigits (n : ℕ) : '-' ∉ Nat.toDigits 10 n := fun hmem =>
    absurd (Nat.isDigit_of_mem_toDigits (by decide) le_rfl hmem) (by decide)
  have htype (lockType : LockType) : '-' ∉ lockTypeName lockType := by cases lockType <;> decide
  obtain ⟨hrest, hkey⟩ := dash_inj (hdigits _) (hdigits _) (append_cancel_right h)
  obtain ⟨hstanza, hname⟩ := dash_inj (htype _) (htype _) hrest
  refine ⟨hstanza, ?_, ?_⟩
  · cases lockType <;> cases lockType' <;> first | rfl | cases hname
  · rw [← @Nat.ofDigitChars_toDigits 10 repoKey (by decide) le_rfl, hkey,
      Nat.ofDigitChars_toDigits (by decide) le_rfl]

/-! ## Stops and starts -/

/-- A call of `cmdStop` or `cmdStart`, without a stanza or with one. -/
inductive ControlCall
  | stop (stanza : Option Str) (force : Bool)
  | start (stanza : Option Str)

def ControlCall.stanza : ControlCall → Option Str
  | stop stanza _ | start stanza => stanza

def ControlCall.isStop : ControlCall → Bool
  | stop _ _ => true
  | start _ => false

def controlStep (path : LockPath) : ControlCall → LockPath
  | .stop stanza force => (cmdStop stanza force path).path
  | .start stanza => cmdStart stanza path

def lastStops (stanza : Option Str) (before : Bool) (calls : List ControlCall) : Bool :=
  calls.foldl (fun stopped call => if call.stanza = stanza then call.isStop else stopped) before

theorem mem_controlStep {path : LockPath} {stanza : Option Str} {call : ControlCall}
    (hown : lockStopFileName call.stanza = lockStopFileName stanza → call.stanza = stanza) :
    lockStopFileName stanza ∈ (controlStep path call).names ↔
      if call.stanza = stanza then call.isStop = true else lockStopFileName stanza ∈ path.names := by
  cases call with
  | start other =>
    show _ ∈ path.names.filter _ ↔ if other = stanza then false = true else _
    rw [mem_filter, decide_eq_true_iff]
    split
    · rename_i heq
      exact iff_of_false (fun h => h.2 (congrArg _ heq.symm)) Bool.false_ne_true
    · rename_i hne
      exact and_iff_left (fun h => hne (hown h.symm))
  | stop other force =>
    have hkept : ¬ StopReads other force path (lockStopFileName stanza) := fun hreads =>
      Bool.false_ne_true ((stopReads_iff.mp hreads).2.2.2.symm.trans (stopSkips_lockStopFileName other stanza))
    show _ ∈ (cmdStop other force path).path.names ↔ if other = stanza then true = true else _
    rw [(cmdStop_spec other force path).2.2, and_iff_left hkept]
    split
    · rename_i heq
      exact iff_of_true (.inl (congrArg _ heq.symm)) rfl
    · rename_i hne
      exact or_iff_right (fun h => hne (hown h.symm))

theorem mem_controlRun {stanza : Option Str} {calls : List ControlCall}
    (hown : ∀ call ∈ calls,
      lockStopFileName call.stanza = lockStopFileName stanza → call.stanza = stanza)
    {path : LockPath} {before : Bool} (hbefore : lockStopFileName stanza ∈ path.names ↔ before = true) :
    lockStopFileName stanza ∈ (calls.foldl controlStep path).names ↔
      lastStops stanza before calls = true := by
  induction calls generalizing path before with
  | nil => exact hbefore
  | cons call calls ih =>
    refine ih (fun call hcall => hown call (mem_cons_of_mem _ hcall)) ?_
    rw [mem_controlStep (hown call mem_cons_self)]
    show _ ↔ (if call.stanza = stanza then call.isStop else before) = true
    split
    · exact Iff.rfl
    · exact hbefore

theorem lockStopTest_error {path : LockPath} {stanza : Str} :
    (∃ error, lockStopTest path (some stanza) = .error error) ↔
      lockStopFileName (some stanza) ∈ path.names ∨ lockStopFileName none ∈ path.names := by
  unfold lockStopTest
  dsimp only
  by_cases hstanza : lockStopFileName (some stanza) ∈ path.names
  · exact iff_of_true ⟨_, by rw [if_pos hstanza]; rfl⟩ (.inl hstanza)
  · by_cases hall : lockStopFileName none ∈ path.names
    · exact iff_of_true ⟨_, by rw [if_neg hstanza, if_pos hall]; rfl⟩ (.inr hall)
    · rw [if_neg hstanza, if_neg hall]
      exact iff_of_false nofun (not_or.mpr ⟨hstanza, hall⟩)

theorem lockStopFileName_inj {a b : Option Str} (ha : a ≠ some "all".toList)
    (hb : b ≠ some "all".toList) (h : lockStopFileName a = lockStopFileName b) : a = b := by
  have hname := append_cancel_right h
  cases a <;> cases b <;> simp_all

/-- **When stop is confined to its stanza**: when no other lock file of the
lock path begins with its name and a dash, and in every run in which no stanza
is called `all`. -/
theorem cmdStop_confined (stanza : Str) (path : LockPath) :
    (StopConfined stanza path (cmdStop (some stanza) true path) ↔ StopAlone stanza path) ∧
    (∀ lockType repoKey stanza' lockType' repoKey',
      cmdLockFileName stanza lockType repoKey = cmdLockFileName stanza' lockType' repoKey' →
        stanza = stanza' ∧ lockType = lockType' ∧ repoKey = repoKey') ∧
    ∀ calls : List ControlCall, stanza ≠ "all".toList →
      (∀ call ∈ calls, call.stanza ≠ some "all".toList) →
      (∀ stopped, lockStopFileName stopped ∉ path.names) →
        ((∃ error, lockStopTest (calls.foldl controlStep path) (some stanza) = .error error) ↔
          lastStops (some stanza) false calls = true ∨ lastStops none false calls = true) := by
  refine ⟨stopConfined_iff stanza path, fun _ _ _ _ _ => cmdLockFileName_inj, ?_⟩
  intro calls hstanza hcalls hpath
  have hrun (stopped : Option Str) (hstopped : stopped ≠ some "all".toList) :=
    mem_controlRun (fun call hcall => lockStopFileName_inj (hcalls call hcall) hstopped)
      (iff_of_false (hpath stopped) Bool.false_ne_true)
  rw [lockStopTest_error, hrun (some stanza) (fun h => hstanza (Option.some.inj h)), hrun none nofun]

/-- The lock path while a backup of `a-b` runs. -/
def stopSample : LockPath := ⟨["a-b-backup-1.lock".toList], fun _ => .valid 7⟩

/-- A start of `a` does not end the stop of all stanzas, and one without a stanza
does. -/
theorem cmdStop_confined_all :
    (∃ error, lockStopTest ([.stop none true, .start (some ['a'])].foldl controlStep stopSample) (some ['a'])
      = .error error) ∧
    ¬ ∃ error, lockStopTest ([.stop none true, .start none].foldl controlStep stopSample) (some ['a'])
      = .error error := by
  have hpath (stopped : Option Str) : lockStopFileName stopped ∉ stopSample.names := fun hmem =>
    absurd (mem_singleton.mp hmem ▸ stopSkips_lockStopFileName none stopped) (by decide)
  have hrun := fun calls => (cmdStop_confined ['a'] stopSample).2.2 calls (by decide)
  rw [hrun _ (by decide) hpath, hrun _ (by decide) hpath]
  decide

/-- **The stop of `a` ends the backup of `a-b`**, and a start of the stanza
`all` ends the stop of all stanzas. -/
theorem cmdStop_notConfined :
    ¬ StopConfined ['a'] stopSample (cmdStop (some ['a']) true stopSample) ∧
      lockStopTest ([.stop none false, .start (some "all".toList)].foldl controlStep ⟨[], fun _ => .missing⟩)
        (some ['a']) = .ok () := by
  refine ⟨fun h => ?_, by decide⟩
  obtain ⟨name, ⟨lockType, repoKey, rfl⟩, hmem, -⟩ := (h.signals 7).mp (by decide)
  have hname : cmdLockFileName ['a'] lockType repoKey = cmdLockFileName "a-b".toList .backup 1 :=
    mem_singleton.mp hmem
  exact absurd (cmdLockFileName_inj hname).1 (by decide)

end PgxBackup
