import Mathlib.Algebra.Group.Int.Defs
import PgxBackup.Text

/-!
# Conversion between numbers and text

The conversions of `common/type/convert`: numbers are printed in base 10
(modes in base 8) and read back with `strtoll` and `strtoull`, rejecting
what those functions would let through (blanks in front, trailing
characters, and a minus sign for unsigned types).
-/

namespace PgxBackup

/-- The error of a failed conversion. -/
def cvtError (base : ℕ) (value : Str) (type : String) : Error where
  type := .formatError
  message := "unable to convert base ".toList ++ Nat.toDigits 10 base ++ " string '".toList
    ++ value ++ "' to ".toList ++ type.toList

/-- The value of a non-empty sequence of digits of the base (at most 10). -/
def digitsValue (base : ℕ) (s : Str) : Option ℕ :=
  if s ≠ [] ∧ s.all (fun c => c.isDigit && decide (c.toNat - 48 < base)) then
    some (Nat.ofDigitChars base s 0)
  else none

/-- `strtoull` on the whole string, without the sign that the callers
reject. -/
def strtoull (base : ℕ) (value : Str) : Option ℕ :=
  let n := match value with
    | '+' :: s => digitsValue base s
    | s => digitsValue base s
  n.filter (fun n => decide (n < 2 ^ 64))

/-- `strtoll` on the whole string. -/
def strtoll (base : ℕ) (value : Str) : Option ℤ :=
  let n : Option ℤ := match value with
    | '+' :: s => (digitsValue base s).map Int.ofNat
    | '-' :: s => (digitsValue base s).map (fun n => -(n : ℤ))
    | s => (digitsValue base s).map Int.ofNat
  n.filter (fun n => decide (-2 ^ 63 ≤ n ∧ n < 2 ^ 63))

/-- Convert to an unsigned integer below `bound`. -/
def cvtZToUnsigned (base bound : ℕ) (type : String) (value : Str) : Except Error ℕ :=
  match (strtoull base value).filter (fun n => decide (n < bound)) with
  | some n => .ok n
  | none => .error (cvtError base value type)

/-- `cvtZToUInt64Base`. -/
def cvtZToUInt64Base (base : ℕ) (value : Str) : Except Error ℕ :=
  cvtZToUnsigned base (2 ^ 64) "uint64" value

/-- `cvtZToUIntBase`. -/
def cvtZToUIntBase (base : ℕ) (value : Str) : Except Error ℕ :=
  cvtZToUnsigned base (2 ^ 32) "unsigned int" value

/-- `cvtZToUInt`. -/
def cvtZToUInt (value : Str) : Except Error ℕ := cvtZToUIntBase 10 value

/-- Convert to a signed integer of the given number of bits. -/
def cvtZToSigned (base bits : ℕ) (type : String) (value : Str) : Except Error ℤ :=
  match (strtoll base value).filter
      (fun n => decide (-2 ^ (bits - 1) ≤ n ∧ n < 2 ^ (bits - 1))) with
  | some n => .ok n
  | none => .error (cvtError base value type)

/-- `cvtZToInt64Base`. -/
def cvtZToInt64Base (base : ℕ) (value : Str) : Except Error ℤ :=
  cvtZToSigned base 64 "int64" value

/-- `cvtZToInt`. -/
def cvtZToInt (value : Str) : Except Error ℤ := cvtZToSigned 10 32 "int" value

/-! ## Reading back what was printed -/

variable {b n : ℕ}

theorem digit_lt_of_mem_toDigits (hb : 1 < b) (hb' : b ≤ 10) {c : Char}
    (hc : c ∈ Nat.toDigits b n) : c.toNat - 48 < b := by
  induction n using Nat.base_induction b hb with
  | single m hm =>
    rw [Nat.toDigits_of_lt_base hm, List.mem_singleton] at hc
    rw [hc, Nat.toNat_digitChar_sub_48_of_lt_ten (by omega)]
    exact hm
  | digit m k hk hm ih =>
    rw [← Nat.toDigits_append_toDigits hb hm hk, List.mem_append] at hc
    cases hc with
    | inl hc => exact ih hc
    | inr hc =>
      rw [Nat.toDigits_of_lt_base hk, List.mem_singleton] at hc
      rw [hc, Nat.toNat_digitChar_sub_48_of_lt_ten (by omega)]
      exact hk

theorem digitsValue_toDigits {b n : ℕ} (hb : 1 < b) (hb' : b ≤ 10) :
    digitsValue b (Nat.toDigits b n) = some n := by
  unfold digitsValue
  rw [if_pos, Nat.ofDigitChars_toDigits hb hb']
  refine ⟨Nat.toDigits_ne_nil, List.all_eq_true.mpr (fun c hc => ?_)⟩
  rw [Bool.and_eq_true, decide_eq_true_eq]
  exact ⟨Nat.isDigit_of_mem_toDigits (by omega) hb' hc, digit_lt_of_mem_toDigits hb hb' hc⟩

theorem digitsValue_some {s : Str} (h : digitsValue 10 s = some n) :
    s ≠ [] ∧ ∀ c ∈ s, c.isDigit = true := by
  unfold digitsValue at h
  split at h
  · rename_i hs
    refine ⟨hs.1, fun c hc => ?_⟩
    have hdigit := List.all_eq_true.mp hs.2 c hc
    rw [Bool.and_eq_true] at hdigit
    exact hdigit.1
  · cases h

theorem toDigits_eq_cons {b n : ℕ} (hb : 1 < b) (hb' : b ≤ 10) :
    ∃ c s, Nat.toDigits b n = c :: s ∧ c.isDigit = true := by
  cases h : Nat.toDigits b n with
  | nil => exact absurd h Nat.toDigits_ne_nil
  | cons c s =>
    have hc : c ∈ Nat.toDigits b n := h ▸ List.mem_cons_self
    exact ⟨c, s, rfl, Nat.isDigit_of_mem_toDigits (by omega) hb' hc⟩

section

variable (hb : 1 < b) (hb' : b ≤ 10)
include hb hb'

theorem strtoull_toDigits (hn : n < 2 ^ 64) : strtoull b (Nat.toDigits b n) = some n := by
  have hval := digitsValue_toDigits (n := n) hb hb'
  obtain ⟨c, s, hcs, hc⟩ := toDigits_eq_cons (n := n) hb hb'
  unfold strtoull
  split
  · rename_i heq
    rw [hcs, List.cons.injEq] at heq
    exact absurd hc (heq.1 ▸ by decide)
  · rw [hval, Option.filter_some, if_pos (decide_eq_true hn)]

theorem strtoll_toDigits (hn : n < 2 ^ 63) : strtoll b (Nat.toDigits b n) = some (n : ℤ) := by
  have hval := @digitsValue_toDigits b n hb hb'
  have ⟨c, s, hcs, hc⟩ := @toDigits_eq_cons b n hb hb'
  have hrange : (-2 ^ 63 : ℤ) ≤ n ∧ (n : ℤ) < 2 ^ 63 := by omega
  have hsign : ∀ {sign : Char} {s' : Str}, Nat.toDigits b n = sign :: s' → sign.isDigit = true := by
    intro sign s' heq
    rw [hcs] at heq
    rwa [← (List.cons.inj heq).1]
  unfold strtoll
  split
  next heq => cases hsign heq
  next heq => cases hsign heq
  next =>
    rw [hval]
    show Option.filter _ (some (n : ℤ)) = _
    rw [Option.filter_some, if_pos (decide_eq_true hrange)]

theorem strtoll_neg_toDigits (hn : n ≤ 2 ^ 63) :
    strtoll b ('-' :: Nat.toDigits b n) = some (-(n : ℤ)) := by
  have hval := @digitsValue_toDigits b n hb hb'
  have hrange : (-2 ^ 63 : ℤ) ≤ -(n : ℤ) ∧ -(n : ℤ) < 2 ^ 63 := by omega
  show Option.filter _ (Option.map (fun n : ℤ => -n)
    (digitsValue b (Nat.toDigits b n) >>= fun n => some (n : ℤ))) = _
  rw [hval]
  show Option.filter _ (some (-(n : ℤ))) = _
  rw [Option.filter_some, if_pos (decide_eq_true hrange)]

/-- **A printed unsigned number is read back.** -/
theorem cvtZToUnsigned_toDigits {bound : ℕ} (hn : n < bound) (hbound : bound ≤ 2 ^ 64)
    (type : String) : cvtZToUnsigned b bound type (Nat.toDigits b n) = .ok n := by
  unfold cvtZToUnsigned
  rw [strtoull_toDigits hb hb' (by omega), Option.filter_some, if_pos (decide_eq_true hn)]

end

end PgxBackup
