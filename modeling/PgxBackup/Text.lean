import Mathlib.Data.List.Sort
import Mathlib.Data.String.Basic
import Mathlib.Order.Basic

/-!
# Strings, string lists and errors

Strings of the program are sequences of characters compared with `strcmp`,
which is the lexicographic order of the character lists. A `NULL` string is
`none` where a function tests for it.

A list of distinct strings has one ascending and one descending order, so
the sort that produces it does not matter; `strLstSort` uses an insertion
sort, which evaluates.
-/

namespace PgxBackup

-- these come before the instances that try all characters
attribute [instance (1100)] List.decidableBAll List.decidableBEx Option.decidableForallMem
  Option.decidableExistsMem List.instDecidableIsInfixOfDecidableEq

/-- A string of the program: its characters, without the terminating zero. -/
abbrev Str := List Char

instance : LawfulBEq Str := inferInstance

instance : IsTrans Str (· ≤ ·) := inferInstance

instance : Std.Antisymm (fun a b : Str => a ≤ b) := inferInstance

instance : Std.Total (fun a b : Str => a ≤ b) := inferInstance

/-- A list of bytes: the used part of a `Buffer`. -/
abbrev Bytes := List UInt8

/-- The substring of `size` characters from `start` (`strSubN`). -/
def strSubN (s : Str) (start size : ℕ) : Str := (s.drop start).take size

/-- Does the string begin with `beginsWith`? (`strBeginsWith`) -/
def strBeginsWith (s beginsWith : Str) : Bool := beginsWith.isPrefixOf s

/-- Compare two strings (`strCmp`). -/
def strCmp (a b : Str) : ℤ := if a < b then -1 else if b < a then 1 else 0

variable {a b : Str} {l : List Str}

theorem strCmp_neg : strCmp a b < 0 ↔ a < b := by
  unfold strCmp
  split
  next h => exact ⟨fun _ => h, fun _ => by decide⟩
  next h =>
    split
    next => exact ⟨fun h' => absurd h' (by decide), fun h' => absurd h' h⟩
    next => exact ⟨fun h' => absurd h' (by decide), fun h' => absurd h' h⟩

theorem strCmp_pos : 0 < strCmp a b ↔ b < a := by
  unfold strCmp
  split
  next h => exact ⟨fun h' => absurd h' (by decide), fun h' => absurd h' h.asymm⟩
  next h =>
    split
    next h' => exact ⟨fun _ => h', fun _ => by decide⟩
    next h' => exact ⟨fun h'' => absurd h'' (by decide), fun h'' => absurd h'' h'⟩

theorem strCmp_eq_zero : strCmp a b = 0 ↔ a = b := by
  unfold strCmp
  split
  next h => exact iff_of_false (by decide) h.ne
  next h =>
    split
    next h' => exact iff_of_false (by decide) h'.ne'
    next h' => exact iff_of_true rfl (le_antisymm (not_lt.mp h') (not_lt.mp h))

theorem strCmp_le_zero : strCmp a b ≤ 0 ↔ a ≤ b := by
  rw [← not_lt, strCmp_pos, not_lt]

/-- The direction of a sort (`SortOrder`). -/
inductive SortOrder
  | asc
  | desc
  deriving DecidableEq, Repr

/-- Sort a list of strings (`strLstSort`). -/
def strLstSort (l : List Str) : SortOrder → List Str
  | .asc => l.insertionSort (· ≤ ·)
  | .desc => l.insertionSort (· ≥ ·)

theorem mem_strLstSort {o : SortOrder} {s : Str} :
    s ∈ strLstSort l o ↔ s ∈ l := by
  cases o
  · exact (List.perm_insertionSort _ l).mem_iff
  · exact (List.perm_insertionSort _ l).mem_iff

theorem length_strLstSort (l : List Str) (o : SortOrder) :
    (strLstSort l o).length = l.length := by
  cases o
  · exact List.length_insertionSort _ l
  · exact List.length_insertionSort _ l

/-- A list that is in ascending order is left alone by the ascending sort. -/
theorem strLstSort_asc_of_pairwise (h : l.Pairwise (· < ·)) :
    strLstSort l .asc = l :=
  List.Pairwise.insertionSort_eq (h.imp le_of_lt)

theorem strLstSort_desc_of_pairwise (h : l.Pairwise (· < ·)) :
    strLstSort l .desc = l.reverse := by
  have hperm : (strLstSort l .desc).Perm l.reverse :=
    (List.perm_insertionSort _ l).trans l.reverse_perm.symm
  have hs : (strLstSort l .desc).Pairwise (· ≥ ·) := List.pairwise_insertionSort _ l
  have hr : l.reverse.Pairwise (· ≥ ·) := by
    rw [List.pairwise_reverse]
    exact h.imp le_of_lt
  exact hperm.eq_of_pairwise (fun a b _ _ h₁ h₂ => le_antisymm h₂ h₁) hs hr

/-! ## Prefixes in the order of strings -/

theorem lt_of_take_lt (n : ℕ) (h : a.take n < b.take n) : a < b := by
  induction n generalizing a b with
  | zero => simp at h
  | succ n ih =>
    cases a with
    | nil =>
      cases b with
      | nil => simp at h
      | cons y b => exact List.nil_lt_cons y b
    | cons x a =>
      cases b with
      | nil => simp at h
      | cons y b =>
        rw [List.take_succ_cons, List.take_succ_cons, List.cons_lt_cons_iff] at h
        rw [List.cons_lt_cons_iff]
        exact h.imp_right (fun h => ⟨h.1, ih h.2⟩)

/-- Prefixes of one length keep the order of the strings. -/
theorem take_le_take (n : ℕ) (h : a ≤ b) : a.take n ≤ b.take n :=
  not_lt.mp (fun hlt => not_lt.mpr h (lt_of_take_lt n hlt))

/-! ## Errors -/

/-- The error types that the modelled functions throw. -/
inductive ErrorType
  | archiveDuplicateError
  | archiveMismatchError
  | archiveTimeoutError
  | assertError
  | backupSetInvalidError
  | checksumError
  | clockError
  | commandError
  | cryptoError
  | dbInvalidError
  | dbMismatchError
  | dbMissingError
  | fileMissingError
  | fileOpenError
  | fileReadError
  | fileRemoveError
  | fileWriteError
  | formatError
  | jsonFormatError
  | linkDestinationError
  | linkMapError
  | lockAcquireError
  | optionInvalidError
  | optionInvalidValueError
  | optionRequiredError
  | pathMissingError
  | protocolError
  | repoInvalidError
  | stopError
  | tablespaceMapError
  deriving DecidableEq, Repr

/-- `errorTypeName`. -/
def errorTypeName : ErrorType → Str
  | .archiveDuplicateError => "ArchiveDuplicateError".toList
  | .archiveMismatchError => "ArchiveMismatchError".toList
  | .archiveTimeoutError => "ArchiveTimeoutError".toList
  | .assertError => "AssertError".toList
  | .backupSetInvalidError => "BackupSetInvalidError".toList
  | .checksumError => "ChecksumError".toList
  | .clockError => "ClockError".toList
  | .commandError => "CommandError".toList
  | .cryptoError => "CryptoError".toList
  | .dbInvalidError => "DbInvalidError".toList
  | .dbMismatchError => "DbMismatchError".toList
  | .dbMissingError => "DbMissingError".toList
  | .fileMissingError => "FileMissingError".toList
  | .fileOpenError => "FileOpenError".toList
  | .fileReadError => "FileReadError".toList
  | .fileRemoveError => "FileRemoveError".toList
  | .fileWriteError => "FileWriteError".toList
  | .formatError => "FormatError".toList
  | .jsonFormatError => "JsonFormatError".toList
  | .linkDestinationError => "LinkDestinationError".toList
  | .linkMapError => "LinkMapError".toList
  | .lockAcquireError => "LockAcquireError".toList
  | .optionInvalidError => "OptionInvalidError".toList
  | .optionInvalidValueError => "OptionInvalidValueError".toList
  | .optionRequiredError => "OptionRequiredError".toList
  | .pathMissingError => "PathMissingError".toList
  | .protocolError => "ProtocolError".toList
  | .repoInvalidError => "RepoInvalidError".toList
  | .stopError => "StopError".toList
  | .tablespaceMapError => "TablespaceMapError".toList

/-- A thrown error: its type and its message. -/
structure Error where
  type : ErrorType
  message : Str
  deriving DecidableEq, Repr

@[simp] theorem ok_bind {ε α β : Type} (a : α) (f : α → Except ε β) : (Except.ok a >>= f) = f a := rfl

theorem ok_inj {ε α β : Type*} {a a' : α} {b b' : β}
    (h : (Except.ok (a, b) : Except ε (α × β)) = .ok (a', b')) : a = a' ∧ b = b' :=
  Prod.mk.inj (Except.ok.inj h)

/-- The first of two steps that succeed together. -/
theorem ok_of_bind {ε α β : Type} {x : Except ε α} {f : α → Except ε β} {b : β}
    (h : (x >>= f) = .ok b) : ∃ a, x = .ok a ∧ f a = .ok b := by
  cases x with
  | error error => cases h
  | ok a => exact ⟨a, rfl, h⟩

/-- Get an item of a list, or the error of `lstGet`. -/
def lstGet {α : Type} (l : List α) (idx : ℕ) : Except Error α :=
  match l[idx]? with
  | some a => .ok a
  | none => .error ⟨.assertError, "cannot get index ".toList ++ Nat.toDigits 10 idx
      ++ " from list with ".toList ++ Nat.toDigits 10 l.length ++ " value(s)".toList⟩

end PgxBackup
