import PgxBackup.KeyValue
import PgxBackup.Pack

/-!
# Variants

Values of a type that is only known at run time: scalars, lists and key/values.
`NULL` is a value as well. A key/value keeps its pairs in the order in which
they were put.

A string that is built is checked against the longest string when it is given
more room (`StrBuf`).
-/

namespace PgxBackup

inductive Variant
  | null
  | bool (value : Bool)
  | int (value : Int32)
  | int64 (value : Int64)
  | uint (value : UInt32)
  | uint64 (value : UInt64)
  | str (value : Str)
  | varLst (list : List Variant)
  | kv (pairs : List (Str × Variant))

/-! ## Strings that grow -/

/-- A `String` that is built: its characters and the space left. -/
structure StrBuf where
  str : Str
  extra : ℕ

def StrBuf.empty : StrBuf := ⟨[], 0⟩

/-- `strCatZN`, and `strCatChr` for one character: `strResize` makes room. -/
def StrBuf.cat (this : StrBuf) (cat : Str) : Except Error StrBuf :=
  if cat.length > this.extra then
    if this.str.length + cat.length > STRING_SIZE_MAX then
      .error ⟨.assertError, "string size must be <= 1073741824 bytes".toList⟩
    else
      .ok ⟨this.str ++ cat,
        max (cat.length + (this.str.length + cat.length) / 2) STRING_EXTRA_MIN - cat.length⟩
  else .ok ⟨this.str ++ cat, this.extra - cat.length⟩

/-- **A string that is not too long** can be built. -/
theorem StrBuf.cat_ok (this : StrBuf) (cat : Str)
    (h : this.str.length + cat.length ≤ STRING_SIZE_MAX) :
    ∃ this', this.cat cat = .ok this' ∧ this'.str = this.str ++ cat := by
  unfold StrBuf.cat
  by_cases hextra : cat.length > this.extra
  · rw [if_pos hextra, if_neg (Nat.not_lt_of_le h)]
    exact ⟨_, rfl, rfl⟩
  · rw [if_neg hextra]
    exact ⟨_, rfl, rfl⟩

theorem StrBuf.cat_str {this this' : StrBuf} {cat : Str} (h : this.cat cat = .ok this') :
    this'.str = this.str ++ cat := by
  unfold StrBuf.cat at h
  split at h
  · split at h
    · cases h
    · cases h
      rfl
  · cases h
    rfl

end PgxBackup
