import Mathlib.Data.Finmap
import Mathlib.Data.Finset.Preimage
import Mathlib.Data.Fintype.EquivFin
import Mathlib.Data.List.DropRight
import PgxBackup.JsonWrite

/-!
# Status files of the async archive commands

The processes of archive-get and archive-push tell each other by status files
in the spool how a file went: an ok file or an error file with the name of the
file, or a global error file. Each command has its own queue in the spool.
`archiveAsyncErrorClear` removes the error files of a file.

It is given the mode of the command and does not look at it: the files it
removes are those of archive-push.
-/

namespace PgxBackup

open List

/-- `ArchiveMode`. -/
inductive ArchiveMode where
  | get
  | push
  deriving DecidableEq

/-- The files of the spool with their contents. -/
abbrev Spool := Finmap fun _ : Str => Str

def STORAGE_SPOOL_ARCHIVE_IN : Str := "<SPOOL:ARCHIVE:IN>".toList
def STORAGE_SPOOL_ARCHIVE_OUT : Str := "<SPOOL:ARCHIVE:OUT>".toList
def STATUS_EXT_OK : Str := ".ok".toList
def STATUS_EXT_ERROR : Str := ".error".toList
def STATUS_FILE_GLOBAL : Str := "global".toList

/-- The queue of the mode (`archiveAsyncSpoolQueue`). -/
def archiveAsyncSpoolQueue (archiveMode : ArchiveMode) : Str :=
  if archiveMode = .get then STORAGE_SPOOL_ARCHIVE_IN else STORAGE_SPOOL_ARCHIVE_OUT

def spoolPath (queue file : Str) : Str := queue ++ '/' :: file

/-- `archiveAsyncErrorClear`. -/
def archiveAsyncErrorClear (_archiveMode : ArchiveMode) (archiveFile : Str) (spool : Spool) : Spool :=
  (spool.erase (spoolPath STORAGE_SPOOL_ARCHIVE_OUT (archiveFile ++ STATUS_EXT_ERROR))).erase
    (spoolPath STORAGE_SPOOL_ARCHIVE_OUT (STATUS_FILE_GLOBAL ++ STATUS_EXT_ERROR))

/-- What a status can throw: what `THROW_CODE` makes of a code and a message, or
an error about the status file. -/
inductive ArchiveAsyncError where
  | code (code : ℤ) (message : Str)
  | file (error : Error)
  deriving DecidableEq

/-- A blank of `strTrim`. -/
def strTrimBlank (c : Char) : Bool := c == ' ' || c == '\t' || c == '\r' || c == '\n'

/-- `strTrim`. -/
def strTrim (s : Str) : Str := (s.dropWhile strTrimBlank).rdropWhile strTrimBlank

/-- The code and the message of a status file, if it has content. -/
def archiveAsyncStatusContent (statusFile content : Str) : Except ArchiveAsyncError (ℤ × Str) :=
  if content = [] then .ok (0, [])
  else
    -- the line feed after the error code should be the first one
    match content.dropWhile (· ≠ '\n') with
    | [] => .error (.file ⟨.formatError, statusFile ++ " content must have at least two lines".toList⟩)
    | _ :: message =>
      if message = [] then
        .error (.file ⟨.formatError, statusFile ++ " message must be > 0".toList⟩)
      else
        match cvtZToInt (content.takeWhile (· ≠ '\n')) with
        | .ok code => .ok (code, strTrim message)
        | .error error => .error (.file error)

/-- The error file of a file or the global one, with its content. -/
def archiveAsyncErrorFile (archiveMode : ArchiveMode) (walSegment : Str) (spool : Spool) :
    Option (Str × Str) :=
  let spoolQueue := archiveAsyncSpoolQueue archiveMode
  match spool.lookup (spoolPath spoolQueue (walSegment ++ STATUS_EXT_ERROR)) with
  | some content => some (walSegment ++ STATUS_EXT_ERROR, content)
  | none =>
    (spool.lookup (spoolPath spoolQueue (STATUS_FILE_GLOBAL ++ STATUS_EXT_ERROR))).map
      fun content => (STATUS_FILE_GLOBAL ++ STATUS_EXT_ERROR, content)

/-- What is warned about an ok file. -/
def archiveAsyncWarning (walSegment : Str) (code : ℤ) (message : Str) : Str :=
  if code ≠ 0 then
    "WAL segment '".toList ++ walSegment ++ "' was not pushed due to error [".toList ++ cvtToZ code
      ++ "] and was manually skipped: ".toList ++ message
  else message

/-- `archiveAsyncStatus`, with the warnings that are logged. -/
def archiveAsyncStatus (archiveMode : ArchiveMode) (walSegment : Str) (throwOnError warnOnOk : Bool)
    (spool : Spool) : Except ArchiveAsyncError (Bool × List Str) :=
  let okFile := walSegment ++ STATUS_EXT_OK
  match spool.lookup (spoolPath (archiveAsyncSpoolQueue archiveMode) okFile) with
  | some content => do
    let (code, message) ← archiveAsyncStatusContent okFile content
    .ok (true, if content ≠ [] ∧ warnOnOk then [archiveAsyncWarning walSegment code message] else [])
  | none =>
    match archiveAsyncErrorFile archiveMode walSegment spool with
    | none => .ok (false, [])
    | some (errorFile, content) => do
      let (code, message) ← archiveAsyncStatusContent errorFile content
      if throwOnError then
        if content = [] then
          .error (.file ⟨.assertError,
            "status file '".toList ++ errorFile ++ "' has no content".toList⟩)
        else .error (.code code message)
      else .ok (false, [])

/-- `archiveAsyncStatusErrorWrite`. -/
def archiveAsyncStatusErrorWrite (archiveMode : ArchiveMode) (walSegment : Option Str) (code : ℤ)
    (message : Str) (spool : Spool) : Spool :=
  spool.insert
    (spoolPath (archiveAsyncSpoolQueue archiveMode)
      (walSegment.getD STATUS_FILE_GLOBAL ++ STATUS_EXT_ERROR))
    (cvtToZ code ++ '\n' :: message)

/-! ## Clearing errors -/

/-- The path of the ok file of a file. -/
def spoolOk (archiveMode : ArchiveMode) (walSegment : Str) : Str :=
  spoolPath (archiveAsyncSpoolQueue archiveMode) (walSegment ++ STATUS_EXT_OK)

/-- The path of the error file of a file. -/
def spoolError (archiveMode : ArchiveMode) (walSegment : Str) : Str :=
  spoolPath (archiveAsyncSpoolQueue archiveMode) (walSegment ++ STATUS_EXT_ERROR)

theorem spoolOk_ne_spoolError {archiveMode archiveMode' : ArchiveMode} {walSegment walSegment' : Str} :
    spoolOk archiveMode walSegment ≠ spoolError archiveMode' walSegment' := by
  have hok : (spoolOk archiveMode walSegment).getLast? = some 'k' := by
    show (_ ++ ('/' :: (walSegment ++ ['.', 'o', 'k']))).getLast? = _
    rw [← cons_append, ← append_assoc, getLast?_append]
    rfl
  have herror : (spoolError archiveMode' walSegment').getLast? = some 'r' := by
    show (_ ++ ('/' :: (walSegment' ++ ['.', 'e', 'r', 'r', 'o', 'r']))).getLast? = _
    rw [← cons_append, ← append_assoc, getLast?_append]
    rfl
  intro h
  rw [h, herror] at hok
  cases hok

theorem spoolPath_get_ne_push {file file' : Str} :
    spoolPath (archiveAsyncSpoolQueue .get) file ≠ spoolPath (archiveAsyncSpoolQueue .push) file' := by
  intro h
  have hchar : some 'I' = some 'O' := congrArg (fun path : Str => path[15]?) h
  cases hchar

section

variable (archiveMode : ArchiveMode)

theorem spoolError_injective : Function.Injective (spoolError archiveMode) := by
  intro walSegment walSegment' h
  simpa [spoolError, spoolPath] using h

theorem spoolOk_injective : Function.Injective (spoolOk archiveMode) := by
  intro walSegment walSegment' h
  simpa [spoolOk, spoolPath] using h

theorem archiveAsyncErrorClear_eq (archiveFile : Str) (spool : Spool) :
    archiveAsyncErrorClear archiveMode archiveFile spool =
      (spool.erase (spoolError .push archiveFile)).erase (spoolError .push STATUS_FILE_GLOBAL) := rfl

end

variable {archiveFile : Str}

theorem lookup_archiveAsyncErrorClear {archiveMode : ArchiveMode} {spool : Spool}
    {path : Str} (hfile : path ≠ spoolError .push archiveFile)
    (hglobal : path ≠ spoolError .push STATUS_FILE_GLOBAL) :
    (archiveAsyncErrorClear archiveMode archiveFile spool).lookup path = spool.lookup path := by
  rw [archiveAsyncErrorClear_eq, Finmap.lookup_erase_ne hglobal, Finmap.lookup_erase_ne hfile]

section

variable (archiveMode : ArchiveMode) (archiveFile : Str) (spool : Spool)

theorem lookup_archiveAsyncErrorClear_global :
    (archiveAsyncErrorClear archiveMode archiveFile spool).lookup
      (spoolError .push STATUS_FILE_GLOBAL) = none := by
  rw [archiveAsyncErrorClear_eq, Finmap.lookup_erase]

theorem lookup_archiveAsyncErrorClear_file :
    (archiveAsyncErrorClear archiveMode archiveFile spool).lookup
      (spoolError .push archiveFile) = none := by
  rw [archiveAsyncErrorClear_eq, Finmap.lookup_eq_none, Finmap.mem_erase, Finmap.mem_erase]
  tauto

end

theorem mem_of_mem_archiveAsyncErrorClear {archiveMode : ArchiveMode}
    {spool : Spool} {path : Str} (h : path ∈ archiveAsyncErrorClear archiveMode archiveFile spool) :
    path ∈ spool := by
  rw [archiveAsyncErrorClear_eq, Finmap.mem_erase, Finmap.mem_erase] at h
  exact h.2.2

/-! ### The status of a file -/

section Status

variable {archiveMode : ArchiveMode} {walSegment : Str} {throwOnError warnOnOk : Bool}
  {spool spool' : Spool}

section

variable (hok : spool.lookup (spoolOk archiveMode walSegment) = spool'.lookup (spoolOk archiveMode walSegment))
include hok

theorem archiveAsyncStatus_congr (hfile : spool.lookup (spoolError archiveMode walSegment)
      = spool'.lookup (spoolError archiveMode walSegment))
    (hglobal : spool.lookup (spoolError archiveMode STATUS_FILE_GLOBAL)
      = spool'.lookup (spoolError archiveMode STATUS_FILE_GLOBAL)) :
    archiveAsyncStatus archiveMode walSegment throwOnError warnOnOk spool
      = archiveAsyncStatus archiveMode walSegment throwOnError warnOnOk spool' := by
  unfold spoolOk spoolError at *
  unfold archiveAsyncStatus archiveAsyncErrorFile
  simp only [hok, hfile, hglobal]

/-- The error files do not matter if there is an ok file. -/
theorem archiveAsyncStatus_congr_ok (hmem : spoolOk archiveMode walSegment ∈ spool) :
    archiveAsyncStatus archiveMode walSegment throwOnError warnOnOk spool
      = archiveAsyncStatus archiveMode walSegment throwOnError warnOnOk spool' := by
  have ⟨content, hcontent⟩ := Finmap.mem_iff.mp hmem
  rw [hcontent] at hok
  unfold spoolOk at hok hcontent
  unfold archiveAsyncStatus
  simp only [hcontent, ← hok]

end

theorem archiveAsyncStatus_none (hok : spoolOk archiveMode walSegment ∉ spool)
    (hfile : spoolError archiveMode walSegment ∉ spool)
    (hglobal : spoolError archiveMode STATUS_FILE_GLOBAL ∉ spool) :
    archiveAsyncStatus archiveMode walSegment throwOnError warnOnOk spool = .ok (false, []) := by
  rw [← Finmap.lookup_eq_none] at hok hfile hglobal
  unfold spoolOk at hok
  unfold spoolError at hfile hglobal
  unfold archiveAsyncStatus archiveAsyncErrorFile
  simp only [hok, hfile, hglobal, Option.map_none]

variable {code : ℤ} {message : Str}

theorem archiveAsyncStatusContent_ne_code {statusFile content : Str} :
    archiveAsyncStatusContent statusFile content ≠ .error (.code code message) := by
  unfold archiveAsyncStatusContent
  intro h
  split at h
  · cases h
  · split at h
    · cases h
    · split at h
      · cases h
      · split at h
        · cases h
        · cases h

theorem archiveAsyncStatus_ne_code_of_ok (hok : spoolOk archiveMode walSegment ∈ spool)
    :
    archiveAsyncStatus archiveMode walSegment throwOnError warnOnOk spool
      ≠ .error (.code code message) := by
  have ⟨content, hcontent⟩ := Finmap.mem_iff.mp hok
  unfold spoolOk at hcontent
  unfold archiveAsyncStatus
  simp only [hcontent]
  cases hread : archiveAsyncStatusContent (walSegment ++ STATUS_EXT_OK) content with
  | ok read => exact nofun
  | error error =>
    intro h
    have herror : Except.error error = Except.error (.code code message) := h
    rw [Except.error.inj herror] at hread
    exact archiveAsyncStatusContent_ne_code hread

theorem archiveAsyncErrorFile_file {content : Str}
    (h : spool.lookup (spoolError archiveMode walSegment) = some content) :
    archiveAsyncErrorFile archiveMode walSegment spool = some (walSegment ++ STATUS_EXT_ERROR, content) := by
  unfold spoolError at h
  unfold archiveAsyncErrorFile
  simp only [h]

/-- An error file is thrown, one way or another. -/
theorem archiveAsyncStatus_throws (hok : spoolOk archiveMode walSegment ∉ spool)
    (herror : spoolError archiveMode walSegment ∈ spool
      ∨ spoolError archiveMode STATUS_FILE_GLOBAL ∈ spool) :
    ∃ error, archiveAsyncStatus archiveMode walSegment true warnOnOk spool = .error error := by
  have ⟨⟨errorFile, content⟩, hread⟩ :
      ∃ p, archiveAsyncErrorFile archiveMode walSegment spool = some p := by
    cases hfile : spool.lookup (spoolError archiveMode walSegment) with
    | some content => exact ⟨_, archiveAsyncErrorFile_file hfile⟩
    | none =>
      rcases herror with hmem | hmem
      · exact absurd (Finmap.lookup_eq_none.mp hfile) (not_not_intro hmem)
      · have ⟨content, hcontent⟩ := Finmap.mem_iff.mp hmem
        unfold spoolError at hfile hcontent
        unfold archiveAsyncErrorFile
        simp only [hfile, hcontent, Option.map_some]
        exact ⟨_, rfl⟩
  rw [← Finmap.lookup_eq_none] at hok
  unfold spoolOk at hok
  unfold archiveAsyncStatus
  simp only [hok, hread, bind, Except.bind, if_true]
  cases archiveAsyncStatusContent errorFile content with
  | error error => exact ⟨error, rfl⟩
  | ok read =>
    by_cases hempty : content = []
    · simp only [hempty, if_true]
      exact ⟨_, rfl⟩
    · simp only [hempty, if_false]
      exact ⟨_, rfl⟩

theorem cvtToZ_ne_linefeed {value : ℤ} {c : Char} (hc : c ∈ cvtToZ value) : c ≠ '\n' := by
  have hdigit : ∀ c ∈ Nat.toDigits 10 value.natAbs, c ≠ '\n' := by
    rintro c hc rfl
    cases Nat.isDigit_of_mem_toDigits (by decide) le_rfl hc
  unfold cvtToZ at hc
  split at hc
  · cases mem_cons.mp hc with
    | inl hsign => rw [hsign]; decide
    | inr hc => exact hdigit c hc
  · exact hdigit c hc

/-- An `int` that is printed is read back. -/
theorem cvtZToInt_cvtToZ {value : ℤ} (hlow : -2 ^ 31 ≤ value) (hhigh : value < 2 ^ 31) :
    cvtZToInt (cvtToZ value) = .ok value := by
  have hstrtoll : strtoll 10 (cvtToZ value) = some value := by
    unfold cvtToZ
    split
    next hneg =>
      rw [strtoll_neg_toDigits (by decide) le_rfl (by omega), Int.ofNat_natAbs_of_nonpos hneg.le,
        neg_neg]
    next hneg =>
      rw [strtoll_toDigits (by decide) le_rfl (by omega), Int.natAbs_of_nonneg (not_lt.mp hneg)]
  unfold cvtZToInt cvtZToSigned
  rw [hstrtoll, Option.filter_some, if_pos (decide_eq_true ⟨hlow, hhigh⟩)]

section

variable (hlow : -2 ^ 31 ≤ code) (hhigh : code < 2 ^ 31) (hmessage : message ≠ [])
include hlow hhigh hmessage

theorem archiveAsyncStatusContent_write {statusFile : Str} :
    archiveAsyncStatusContent statusFile (cvtToZ code ++ '\n' :: message)
      = .ok (code, strTrim message) := by
  have hchars : ∀ c ∈ cvtToZ code, decide (c ≠ '\n') = true :=
    fun c hc => decide_eq_true (cvtToZ_ne_linefeed hc)
  have hdrop : (cvtToZ code ++ '\n' :: message).dropWhile (· ≠ '\n') = '\n' :: message := by
    rw [dropWhile_append_of_pos hchars]
    rfl
  have htake : (cvtToZ code ++ '\n' :: message).takeWhile (· ≠ '\n') = cvtToZ code := by
    rw [takeWhile_append_of_pos hchars]
    exact append_nil _
  have hne : cvtToZ code ++ '\n' :: message ≠ [] := append_ne_nil_of_right_ne_nil _ nofun
  unfold archiveAsyncStatusContent
  rw [if_neg hne, hdrop, htake, cvtZToInt_cvtToZ hlow hhigh]
  exact if_neg hmessage

/-- **An error that was written is thrown** if there is no ok file. -/
theorem archiveAsyncStatus_written (hok : spoolOk archiveMode walSegment ∉ spool)
    (hfile : spool.lookup (spoolError archiveMode walSegment) = some (cvtToZ code ++ '\n' :: message)) :
    archiveAsyncStatus archiveMode walSegment true warnOnOk spool
      = .error (.code code (strTrim message)) := by
  have hne : cvtToZ code ++ '\n' :: message ≠ [] := append_ne_nil_of_right_ne_nil _ nofun
  rw [← Finmap.lookup_eq_none] at hok
  unfold spoolOk at hok
  unfold archiveAsyncStatus
  simp only [hok, archiveAsyncErrorFile_file hfile, bind, Except.bind,
    archiveAsyncStatusContent_write hlow hhigh hmessage, if_true, hne, if_false]

end

end Status

def ArchiveMode.other : ArchiveMode → ArchiveMode
  | .get => .push
  | .push => .get

/-- An error of a file, or a global one, that was written before the clear is
not thrown after it, and the status of the other command stays the same. -/
structure ArchiveAsyncCleared (archiveMode : ArchiveMode) (archiveFile : Str) (spool : Spool) :
    Prop where
  effective : ∀ walSegment ∈ [some archiveFile, none], ∀ (code : ℤ) (message : Str) (warnOnOk : Bool),
    code ≠ 0 → archiveAsyncStatus archiveMode archiveFile true warnOnOk
        (archiveAsyncErrorClear archiveMode archiveFile
          (archiveAsyncStatusErrorWrite archiveMode walSegment code message spool))
      ≠ .error (.code code (strTrim message))
  confined : ∀ (walSegment : Str) (throwOnError warnOnOk : Bool),
    archiveAsyncStatus archiveMode.other walSegment throwOnError warnOnOk
        (archiveAsyncErrorClear archiveMode archiveFile spool)
      = archiveAsyncStatus archiveMode.other walSegment throwOnError warnOnOk spool

/-- When the errors are cleared: for archive-push, and for archive-get if there
is an ok file and archive-push has no errors that the clear would remove. -/
def ArchiveAsyncClearable (archiveMode : ArchiveMode) (archiveFile : Str) (spool : Spool) : Prop :=
  archiveMode = .push
    ∨ spoolOk .get archiveFile ∈ spool
      ∧ spoolError .push STATUS_FILE_GLOBAL ∉ spool
      ∧ (spoolError .push archiveFile ∈ spool → spoolOk .push archiveFile ∈ spool)

theorem exists_noStatus (archiveMode : ArchiveMode) (spool : Spool) :
    ∃ walSegment, spoolOk archiveMode walSegment ∉ spool
      ∧ spoolError archiveMode walSegment ∉ spool := by
  have ⟨walSegment, hfresh⟩ := Infinite.exists_notMem_finset
    (spool.keys.preimage (spoolOk archiveMode) (spoolOk_injective archiveMode).injOn
      ∪ spool.keys.preimage (spoolError archiveMode) (spoolError_injective archiveMode).injOn)
  rw [Finset.mem_union, not_or, Finset.mem_preimage, Finset.mem_preimage, Finmap.mem_keys,
    Finmap.mem_keys] at hfresh
  exact ⟨walSegment, hfresh⟩

/-- **Clearing the errors of archive-push** does what it is for. -/
theorem archiveAsyncCleared_push (archiveFile : Str) (spool : Spool) :
    ArchiveAsyncCleared .push archiveFile spool where
  effective walSegment _ code message warnOnOk _ := by
    have hfile := lookup_archiveAsyncErrorClear_file .push archiveFile
      (archiveAsyncStatusErrorWrite .push walSegment code message spool)
    have hglobal := lookup_archiveAsyncErrorClear_global .push archiveFile
      (archiveAsyncStatusErrorWrite .push walSegment code message spool)
    by_cases hok : spoolOk .push archiveFile ∈ archiveAsyncErrorClear .push archiveFile
        (archiveAsyncStatusErrorWrite .push walSegment code message spool)
    · exact archiveAsyncStatus_ne_code_of_ok hok
    · rw [archiveAsyncStatus_none hok (Finmap.lookup_eq_none.mp hfile)
        (Finmap.lookup_eq_none.mp hglobal)]
      exact nofun
  confined walSegment throwOnError warnOnOk := by
    refine archiveAsyncStatus_congr ?_ ?_ ?_
    · exact lookup_archiveAsyncErrorClear spoolPath_get_ne_push spoolPath_get_ne_push
    · exact lookup_archiveAsyncErrorClear spoolPath_get_ne_push spoolPath_get_ne_push
    · exact lookup_archiveAsyncErrorClear spoolPath_get_ne_push spoolPath_get_ne_push

theorem archiveAsyncStatus_clear_get (archiveFile walSegment : Str) (throwOnError warnOnOk : Bool)
    (spool : Spool) :
    archiveAsyncStatus .get walSegment throwOnError warnOnOk
        (archiveAsyncErrorClear .get archiveFile spool)
      = archiveAsyncStatus .get walSegment throwOnError warnOnOk spool := by
  refine archiveAsyncStatus_congr ?_ ?_ ?_
  · exact lookup_archiveAsyncErrorClear spoolPath_get_ne_push spoolPath_get_ne_push
  · exact lookup_archiveAsyncErrorClear spoolPath_get_ne_push spoolPath_get_ne_push
  · exact lookup_archiveAsyncErrorClear spoolPath_get_ne_push spoolPath_get_ne_push

section

variable {spool : Spool} (h : ArchiveAsyncCleared .get archiveFile spool)
include h

/-- The errors of archive-get are thrown after the clear unless there is an ok
file. -/
theorem ArchiveAsyncCleared.get_ok : spoolOk .get archiveFile ∈ spool := by
  by_contra hok
  have heffective := h.effective (some archiveFile) mem_cons_self 1 ['m'] true one_ne_zero
  rw [archiveAsyncStatus_clear_get] at heffective
  refine heffective (archiveAsyncStatus_written (by decide) (by decide) nofun ?_ ?_)
  · rw [← Finmap.lookup_eq_none] at hok ⊢
    exact (Finmap.lookup_insert_of_ne _ spoolOk_ne_spoolError).trans hok
  · exact Finmap.lookup_insert _

theorem ArchiveAsyncCleared.push_global : spoolError .push STATUS_FILE_GLOBAL ∉ spool := by
  intro hglobal
  have ⟨walSegment, hok, hfile⟩ := exists_noStatus .push spool
  have ⟨error, hbefore⟩ := @archiveAsyncStatus_throws .push walSegment false spool hok (Or.inr hglobal)
  have hafter := @archiveAsyncStatus_none .push walSegment true false
    (archiveAsyncErrorClear .get archiveFile spool)
    (fun hmem => hok (mem_of_mem_archiveAsyncErrorClear hmem))
    (fun hmem => hfile (mem_of_mem_archiveAsyncErrorClear hmem))
    (Finmap.lookup_eq_none.mp (lookup_archiveAsyncErrorClear_global .get archiveFile spool))
  have hconfined := h.confined walSegment true false
  rw [show ArchiveMode.get.other = .push from rfl, hbefore, hafter] at hconfined
  cases hconfined

theorem ArchiveAsyncCleared.push_file (hfile : spoolError .push archiveFile ∈ spool) :
    spoolOk .push archiveFile ∈ spool := by
  by_contra hok
  have ⟨error, hbefore⟩ := @archiveAsyncStatus_throws .push archiveFile false spool hok (Or.inl hfile)
  have hafter := @archiveAsyncStatus_none .push archiveFile true false
    (archiveAsyncErrorClear .get archiveFile spool)
    (fun hmem => hok (mem_of_mem_archiveAsyncErrorClear hmem))
    (Finmap.lookup_eq_none.mp (lookup_archiveAsyncErrorClear_file .get archiveFile spool))
    (Finmap.lookup_eq_none.mp (lookup_archiveAsyncErrorClear_global .get archiveFile spool))
  have hconfined := h.confined archiveFile true false
  rw [show ArchiveMode.get.other = .push from rfl, hbefore, hafter] at hconfined
  cases hconfined

end

theorem archiveAsyncCleared_get {spool : Spool}
    (hok : spoolOk .get archiveFile ∈ spool)
    (hglobal : spoolError .push STATUS_FILE_GLOBAL ∉ spool)
    (hfile : spoolError .push archiveFile ∈ spool → spoolOk .push archiveFile ∈ spool) :
    ArchiveAsyncCleared .get archiveFile spool where
  effective walSegment _ code message warnOnOk _ := by
    rw [archiveAsyncStatus_clear_get]
    refine archiveAsyncStatus_ne_code_of_ok ?_
    unfold archiveAsyncStatusErrorWrite
    rw [Finmap.mem_insert]
    exact Or.inr hok
  confined walSegment throwOnError warnOnOk := by
    have hlookup : ∀ path, path ≠ spoolError .push archiveFile →
        (archiveAsyncErrorClear .get archiveFile spool).lookup path = spool.lookup path := by
      intro path hpath
      by_cases heq : path = spoolError .push STATUS_FILE_GLOBAL
      · rw [heq, lookup_archiveAsyncErrorClear_global, Finmap.lookup_eq_none.mpr hglobal]
      · exact lookup_archiveAsyncErrorClear hpath heq
    show archiveAsyncStatus .push _ _ _ _ = _
    by_cases hmem : spoolError .push archiveFile ∈ spool
    · by_cases heq : walSegment = archiveFile
      · -- the ok file of the file is what its status shows
        rw [heq]
        exact (archiveAsyncStatus_congr_ok (hlookup _ spoolOk_ne_spoolError).symm (hfile hmem)).symm
      · refine archiveAsyncStatus_congr (hlookup _ spoolOk_ne_spoolError) (hlookup _ ?_) ?_
        · exact fun h => heq (spoolError_injective .push h)
        · rw [lookup_archiveAsyncErrorClear_global, Finmap.lookup_eq_none.mpr hglobal]
    · have hall : ∀ path, (archiveAsyncErrorClear .get archiveFile spool).lookup path
          = spool.lookup path := by
        intro path
        by_cases heq : path = spoolError .push archiveFile
        · rw [heq, lookup_archiveAsyncErrorClear_file, Finmap.lookup_eq_none.mpr hmem]
        · exact hlookup path heq
      exact archiveAsyncStatus_congr (hall _) (hall _) (hall _)

/-- **Errors are cleared exactly** for archive-push, or where there is nothing to
clear. -/
theorem archiveAsyncErrorClear_exact (archiveMode : ArchiveMode) (archiveFile : Str) (spool : Spool) :
    ArchiveAsyncCleared archiveMode archiveFile spool
      ↔ ArchiveAsyncClearable archiveMode archiveFile spool := by
  constructor
  · intro h
    cases archiveMode with
    | push => exact Or.inl rfl
    | get => exact Or.inr ⟨h.get_ok, h.push_global, h.push_file⟩
  · intro h
    cases archiveMode with
    | push => exact archiveAsyncCleared_push archiveFile spool
    | get =>
      rcases h with hmode | ⟨hok, hglobal, hfile⟩
      · cases hmode
      · exact archiveAsyncCleared_get hok hglobal hfile

/-- An error of archive-get is thrown after it was cleared. -/
theorem archiveAsyncErrorClear_get_kept :
    ¬ ArchiveAsyncCleared .get "000000010000000100000001".toList ∅ := by
  intro h
  have hok := h.get_ok
  exact absurd hok Finmap.notMem_empty

end PgxBackup
