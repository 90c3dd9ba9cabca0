import Mathlib.Data.Nat.Notation
import PgxBackup.Text

/-!
# Paths in strings

The functions of `common/type/string.c` that take a path apart or make it
absolute. They look at the text only: links are not followed.
-/

namespace PgxBackup

open List

/-- The name without the path (`strBaseZ`). -/
def strBaseZ (s : Str) : Str := (s.reverse.takeWhile (· ≠ '/')).reverse

/-- The path without the name, and without the slash between them unless it is
the root (`strPath`). -/
def strPath (s : Str) : Str :=
  let size := s.length - (strBaseZ s).length
  s.take (if size ≤ 1 then size else size - 1)

/-- `strLstNewSplit` with a slash. -/
def strLstNewSplitSlash (s : Str) : List Str := s.splitOn '/'

/-- The loop of `strPathAbsolute` over the parts of the relative path. -/
def strPathAbsoluteLoop (this base : Str) : List Str → List Str → Except Error (List Str)
  | [], baseList => .ok baseList
  | pathPart :: pathList, baseList =>
    if pathPart = [] then
      -- an empty last part just means there was a trailing slash
      if pathList = [] then .ok baseList
      else .error ⟨.assertError, '\'' :: this ++ "' is not a valid relative path".toList⟩
    else if pathPart = "..".toList then
      if baseList.getLastD [] = [] then
        .error ⟨.assertError, "relative path '".toList ++ this ++ "' goes back too far in base path '".toList
          ++ base ++ "'".toList⟩
      else strPathAbsoluteLoop this base pathList baseList.dropLast
    else if pathPart ≠ ".".toList then
      strPathAbsoluteLoop this base pathList (baseList ++ [pathPart])
    else strPathAbsoluteLoop this base pathList baseList

/-- Does the string contain the other one? (`strstr`) -/
def strstr (s sub : Str) : Bool := decide (sub <:+: s)

/-- The path that `strPathAbsolute` builds before it looks at the result. -/
def strPathAbsoluteResult (this base : Str) : Except Error Str := do
  if strBeginsWith this "/".toList then
    .ok this
  else if !strBeginsWith base "/".toList then
    .error ⟨.assertError, "base path '".toList ++ base ++ "' is not absolute".toList⟩
  else
    let baseList ← strPathAbsoluteLoop this base (strLstNewSplitSlash this) (strLstNewSplitSlash base)
    .ok (if baseList.length = 1 then "/".toList else intercalate "/".toList baseList)

/-- `strPathAbsolute`. -/
def strPathAbsolute (this base : Str) : Except Error Str := do
  let result ← strPathAbsoluteResult this base
  -- there should not be any stray .. or // in the final result
  if strstr result "/..".toList || strstr result "//".toList then
    .error ⟨.assertError, "result path '".toList ++ result ++ "' is not absolute".toList⟩
  else .ok result

theorem strBaseZ_append (dir : Str) {base : Str} (h : '/' ∉ base) : strBaseZ (dir ++ '/' :: base) = base := by
  have hall : ∀ c ∈ base.reverse, decide (c ≠ '/') = true := fun c hc =>
    decide_eq_true fun heq => h (heq ▸ mem_reverse.mp hc)
  unfold strBaseZ
  rw [reverse_append, reverse_cons, append_assoc, takeWhile_append_of_pos hall,
    singleton_append, takeWhile_cons_of_neg (by decide), append_nil, reverse_reverse]

end PgxBackup
