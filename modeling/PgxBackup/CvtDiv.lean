import Mathlib.Data.List.DropRight
import PgxBackup.Convert
import PgxBackup.FixedWidth

/-!
# Quotients as decimal text

`cvtDivToZ` prints a quotient with a fixed number of decimals: the dividend is
scaled by a power of ten, the integer quotient is printed and rounded on its
digits, and the decimal point is put in between.

The text is padded to the number of decimals only, before the digit that is
rounded away is removed. So a quotient below one has no digit in front of the
point, or not even all of its decimals, and then the point is put in front of
the buffer.
-/

namespace PgxBackup

open List

/-- What goes wrong: an error, or a position that is not in the buffer. -/
inductive CvtDivError where
  | error (error : Error)
  | bounds
  deriving DecidableEq

def bufferOverflow : CvtDivError := .error ⟨.assertError, "buffer overflow".toList⟩

/-- The largest `uint64_t`. -/
def UINT64_MAX : ℕ := 2 ^ 64 - 1

/-- The character at a position of the text in the buffer. -/
def bufferGet (buffer : Str) (idx : ℕ) : Except CvtDivError Char :=
  match buffer[idx]? with
  | some c => .ok c
  | none => .error .bounds

/-- Set the character at a position of the text in the buffer. -/
def bufferSet (buffer : Str) (idx : ℕ) (c : Char) : Except CvtDivError Str :=
  if idx < buffer.length then .ok (buffer.set idx c) else .error .bounds

/-- The character after a character (`buffer[idx]++`). -/
def charNext (c : Char) : Char := Char.ofNat (c.toNat + 1)

/-- The loop of `cvtRound`, for the positions below one. -/
def cvtRoundLoop (bufferSize : ℕ) : ℕ → Str → Except CvtDivError Str
  | 0, buffer => .ok buffer
  | roundIdx + 1, buffer => do
    let current ← bufferGet buffer roundIdx
    let rounding ← bufferGet buffer (roundIdx + 1)
    -- round when the rounding digit is >= 5 or the current digit > 9
    if (roundIdx + 2 = buffer.length ∧ '5' ≤ rounding) ∨ '9' < current then
      if '9' ≤ current then
        -- if this is the first digit then add a new prior digit to carry to
        if roundIdx = 0 then
          if buffer.length + 1 ≥ bufferSize then .error bufferOverflow
          else .ok ('1' :: '0' :: buffer.tail)
        -- else set current digit to zero and carry to prior digit
        else
          let buffer ← bufferSet buffer roundIdx '0'
          let prior ← bufferGet buffer (roundIdx - 1)
          let buffer ← bufferSet buffer (roundIdx - 1) (charNext prior)
          cvtRoundLoop bufferSize roundIdx buffer
      else
        let buffer ← bufferSet buffer roundIdx (charNext current)
        cvtRoundLoop bufferSize roundIdx buffer
    else .ok buffer

/-- `cvtRound`: the last digit rounds the others and is removed. -/
def cvtRound (buffer : Str) (bufferSize : ℕ) : Except CvtDivError Str := do
  let buffer ← cvtRoundLoop bufferSize (buffer.length - 1) buffer
  if buffer = [] then .error .bounds else .ok buffer.dropLast

/-- Strip off any final zeros and the decimal point, from the end of the text.
The end does not go past the beginning if there is something in front of the
point. -/
def cvtTrim : Str → Except CvtDivError Str
  | [] => .error .bounds
  | c :: rest =>
    if c = '0' ∨ c = '.' then
      if rest = [] then .error .bounds
      else if c = '.' then .ok rest
      else cvtTrim rest
    else .ok (c :: rest)

/-- `cvtFraction`. -/
def cvtFraction (precision : ℕ) (trim : Bool) (buffer : Str) (bufferSize : ℕ) :
    Except CvtDivError Str :=
  if buffer.length + 1 ≥ bufferSize then .error bufferOverflow
  else if buffer.length < precision then .error .bounds
  else
    let buffer := buffer.take (buffer.length - precision)
      ++ '.' :: buffer.drop (buffer.length - precision)
    if trim then (cvtTrim buffer.reverse).map reverse else .ok buffer

/-- How many digits `%u` prints. -/
def digitsTotal (n : ℕ) : ℕ := (Nat.toDigits 10 n).length

/-- The lowest decimal digits of a number. -/
def decimalDigits (w n : ℕ) : Str := FixedWidth.digits Nat.digitChar 10 w n

/-- `%0*u`. -/
def uintToZ (width n : ℕ) : Str := decimalDigits (max width (digitsTotal n)) n

/-- `cvtDivToZ`. -/
def cvtDivToZ (dividend divisor precision : ℕ) (trim : Bool) (bufferSize : ℕ) :
    Except CvtDivError Str := do
  let multiplier := 10 ^ precision
  if 3 < precision then
    .error (.error ⟨.assertError,
      "precision ".toList ++ Nat.toDigits 10 precision ++ " is invalid".toList⟩)
  else if UINT64_MAX / multiplier < dividend then
    .error (.error ⟨.assertError,
      "dividend ".toList ++ Nat.toDigits 10 dividend ++ " is too large".toList⟩)
  else
    -- if possible add a digit for rounding
    let round := decide (dividend ≤ UINT64_MAX / (multiplier * 10))
    let multiplier := if round then multiplier * 10 else multiplier
    let buffer := uintToZ precision (dividend * multiplier / divisor)
    if buffer.length ≥ bufferSize then .error bufferOverflow
    else
      let buffer ← if round then cvtRound buffer bufferSize else .ok buffer
      if precision > 0 then cvtFraction precision trim buffer bufferSize else .ok buffer

def CVT_DIV_BUFFER_SIZE : ℕ := 68

/-- `strNewDiv`. -/
def strNewDiv (dividend divisor precision : ℕ) (trim : Bool) : Except CvtDivError Str :=
  cvtDivToZ dividend divisor precision trim CVT_DIV_BUFFER_SIZE

/-! ## Rounding on digits -/

/-- The digits of a number, one more than are given if it does not fit. -/
def grownDigits (w n : ℕ) : Str := decimalDigits (if n < 10 ^ w then w else w + 1) n

@[simp] theorem length_decimalDigits (w n : ℕ) : (decimalDigits w n).length = w :=
  FixedWidth.length_digits _ _ _ _

theorem decimalDigits_succ (w n : ℕ) :
    decimalDigits (w + 1) n = decimalDigits w (n / 10) ++ [Nat.digitChar (n % 10)] := by
  have hlt : n % 10 < 10 ^ 1 := Nat.mod_lt _ (by decide)
  have happend := FixedWidth.digits_append Nat.digitChar 10 w 1 (n / 10) hlt
  have hn : n / 10 * 10 ^ 1 + n % 10 = n := by omega
  have hdigit : n % 10 / 10 ^ 0 % 10 = n % 10 := by omega
  rw [hn] at happend
  refine happend.trans ?_
  show _ ++ [Nat.digitChar (n % 10 / 10 ^ 0 % 10)] = _
  rw [hdigit]
  rfl

theorem grownDigits_succ (w n : ℕ) :
    grownDigits (w + 1) n = grownDigits w (n / 10) ++ [Nat.digitChar (n % 10)] := by
  have hfits : n < 10 ^ (w + 1) ↔ n / 10 < 10 ^ w := by
    rw [Nat.pow_succ, Nat.div_lt_iff_lt_mul (by decide)]
  unfold grownDigits
  by_cases h : n / 10 < 10 ^ w
  · rw [if_pos h, if_pos (hfits.mpr h), decimalDigits_succ]
  · rw [if_neg h, if_neg (fun h' => h (hfits.mp h')), decimalDigits_succ]

section Buffer

theorem bufferGet_append (a : Str) (c : Char) (rest : Str) :
    bufferGet (a ++ c :: rest) a.length = .ok c := by
  unfold bufferGet
  rw [getElem?_append_right le_rfl, Nat.sub_self]
  rfl

theorem bufferSet_append (a : Str) (c d : Char) (rest : Str) :
    bufferSet (a ++ c :: rest) a.length d = .ok (a ++ d :: rest) := by
  unfold bufferSet
  rw [if_pos (by simp), set_append_right _ _ le_rfl, Nat.sub_self]
  rfl

theorem bufferGet_append_succ (a : Str) (c d : Char) (rest : Str) :
    bufferGet (a ++ c :: d :: rest) (a.length + 1) = .ok d := by
  have h := bufferGet_append (a ++ [c]) d rest
  rwa [append_assoc, length_append] at h

variable {bufferSize : ℕ} {a rest : Str} {current rounding : Char}

/-- Whether the digit at a position is changed: when the rounding digit comes
next and is at least five, or when it was carried to and is past nine. -/
theorem cvtRound_cond :
    (a.length + 2 = (a ++ current :: rounding :: rest).length ∧ '5' ≤ rounding) ∨ '9' < current
      ↔ (rest = [] ∧ '5' ≤ rounding) ∨ '9' < current := by
  have hlength : a.length + 2 = (a ++ current :: rounding :: rest).length ↔ rest = [] := by
    rw [length_append, length_cons, length_cons, ← length_eq_zero_iff]
    omega
  rw [hlength]

theorem cvtRoundLoop_stop (h : ¬ ((rest = [] ∧ '5' ≤ rounding) ∨ '9' < current)) :
    cvtRoundLoop bufferSize (a.length + 1) (a ++ current :: rounding :: rest)
      = .ok (a ++ current :: rounding :: rest) := by
  unfold cvtRoundLoop
  rw [bufferGet_append, bufferGet_append_succ]
  exact if_neg (fun h' => h (cvtRound_cond.mp h'))

theorem cvtRoundLoop_increment (h : (rest = [] ∧ '5' ≤ rounding) ∨ '9' < current)
    (hnine : ¬ '9' ≤ current) :
    cvtRoundLoop bufferSize (a.length + 1) (a ++ current :: rounding :: rest)
      = cvtRoundLoop bufferSize a.length (a ++ charNext current :: rounding :: rest) := by
  rw [cvtRoundLoop, bufferGet_append, bufferGet_append_succ]
  refine (if_pos (cvtRound_cond.mpr h)).trans ((if_neg hnine).trans ?_)
  rw [bufferSet_append]
  rfl

/-- A nine is carried to the digit in front of it. -/
theorem cvtRoundLoop_carry {prior : Char} (h : (rest = [] ∧ '5' ≤ rounding) ∨ '9' < current)
    (hnine : '9' ≤ current) :
    cvtRoundLoop bufferSize (a.length + 2) (a ++ prior :: current :: rounding :: rest)
      = cvtRoundLoop bufferSize (a.length + 1) (a ++ charNext prior :: '0' :: rounding :: rest) := by
  have hlength : (a ++ [prior]).length = a.length + 1 := length_append
  have happend : ∀ c : Char, a ++ prior :: c :: rounding :: rest = (a ++ [prior]) ++ c :: rounding :: rest :=
    fun c => (append_cons ..)
  have hcond := (@cvtRound_cond (a ++ [prior]) rest current rounding).mpr h
  rw [cvtRoundLoop, happend, ← hlength, bufferGet_append, bufferGet_append_succ]
  refine (if_pos hcond).trans ((if_pos hnine).trans ((if_neg (by simp)).trans ?_))
  rw [bufferSet_append, ← happend, hlength]
  show (bufferGet _ a.length >>= fun prior => _) = _
  rw [bufferGet_append]
  show (bufferSet _ a.length _ >>= fun buffer => _) = _
  rw [bufferSet_append]
  rfl

theorem cvtRoundLoop_grow (h : (rest = [] ∧ '5' ≤ rounding) ∨ '9' < current) (hnine : '9' ≤ current)
    (hsize : rest.length + 3 < bufferSize) :
    cvtRoundLoop bufferSize 1 (current :: rounding :: rest) = .ok ('1' :: '0' :: rounding :: rest) := by
  have hcond := (@cvtRound_cond [] rest current rounding).mpr h
  rw [cvtRoundLoop]
  refine (if_pos hcond).trans ((if_pos hnine).trans ((if_pos rfl).trans (if_neg ?_)))
  show ¬ rest.length + 2 + 1 ≥ bufferSize
  omega

end Buffer

theorem charNext_digitChar : ∀ i < 9, charNext (Nat.digitChar i) = Nat.digitChar (i + 1) := by decide

theorem digitChar_le_nine : ∀ i < 10, ¬ '9' < Nat.digitChar i := by decide

theorem five_le_digitChar : ∀ i < 10, '5' ≤ Nat.digitChar i ↔ 5 ≤ i := by decide

theorem nine_le_digitChar : ∀ i < 10, '9' ≤ Nat.digitChar i ↔ i = 9 := by decide

theorem nine_lt_charNext : '9' < charNext (Nat.digitChar 9) ∧ '9' ≤ charNext (Nat.digitChar 9) := by
  decide

/-- Digits in front of what was changed stay, since the rounding digit does not
come next. -/
theorem cvtRoundLoop_digits (bufferSize w m : ℕ) {next rounding : Char} {rest : Str} :
    cvtRoundLoop bufferSize w (decimalDigits w m ++ next :: rounding :: rest)
      = .ok (decimalDigits w m ++ next :: rounding :: rest) := by
  cases w with
  | zero => rfl
  | succ w =>
    have hstop := @cvtRoundLoop_stop bufferSize (decimalDigits w (m / 10)) (rounding :: rest)
      (Nat.digitChar (m % 10)) next (by
        rintro (h | h)
        · cases h.1
        · exact digitChar_le_nine _ (Nat.mod_lt _ (by decide)) h)
    rw [length_decimalDigits] at hstop
    rw [decimalDigits_succ, append_assoc]
    exact hstop

variable {w m n : ℕ}

/-- The next number, if there is nothing to carry. -/
theorem grownDigits_succ_of_lt (hm : m < 10 ^ (w + 1)) (hlast : m % 10 < 9) :
    grownDigits (w + 1) (m + 1) = decimalDigits w (m / 10) ++ [Nat.digitChar (m % 10 + 1)] := by
  have hdiv : (m + 1) / 10 = m / 10 := by omega
  have hmod : (m + 1) % 10 = m % 10 + 1 := by omega
  have hlt : m / 10 < 10 ^ w := by rwa [Nat.div_lt_iff_lt_mul (by decide), ← Nat.pow_succ]
  rw [grownDigits_succ, hdiv, hmod, grownDigits, if_pos hlt]

theorem grownDigits_succ_of_nine (hlast : m % 10 = 9) :
    grownDigits (w + 1) (m + 1) = grownDigits w (m / 10 + 1) ++ ['0'] := by
  have hdiv : (m + 1) / 10 = m / 10 + 1 := by omega
  have hmod : (m + 1) % 10 = 0 := by omega
  rw [grownDigits_succ, hdiv, hmod]
  rfl

variable {bufferSize : ℕ}

/-- The digits that were incremented without a carry are those of the next
number, and the loop stops. -/
theorem cvtRoundLoop_pending_stop {rounding : Char} {rest : Str}
    (hm : m < 10 ^ (w + 1)) (hlast : m % 10 < 9) (hrest : rest ≠ []) :
    cvtRoundLoop bufferSize (w + 1)
        (decimalDigits w (m / 10) ++ charNext (Nat.digitChar (m % 10)) :: rounding :: rest)
      = .ok (grownDigits (w + 1) (m + 1) ++ rounding :: rest) := by
  have hstop := @cvtRoundLoop_stop bufferSize (decimalDigits w (m / 10)) rest
    (Nat.digitChar (m % 10 + 1)) rounding (by
      rintro (h | h)
      · exact hrest h.1
      · exact digitChar_le_nine _ (by omega) h)
  rw [length_decimalDigits] at hstop
  rw [charNext_digitChar _ hlast, hstop, grownDigits_succ_of_lt hm hlast, append_assoc]
  rfl

/-- **The carry**: when the last digit was incremented and may be past nine, the
loop gives the digits of the next number. -/
theorem cvtRoundLoop_pending (w : ℕ) : ∀ {m : ℕ} {rounding : Char} {rest : Str},
    m < 10 ^ (w + 1) → rest ≠ [] → w + rest.length + 3 < bufferSize →
    cvtRoundLoop bufferSize (w + 1)
        (decimalDigits w (m / 10) ++ charNext (Nat.digitChar (m % 10)) :: rounding :: rest)
      = .ok (grownDigits (w + 1) (m + 1) ++ rounding :: rest) := by
  induction w with
  | zero =>
    intro m rounding rest hm hrest hsize
    by_cases hlast : m % 10 < 9
    · exact cvtRoundLoop_pending_stop hm hlast hrest
    · have hnine : m = 9 := by omega
      rw [hnine]
      exact cvtRoundLoop_grow (Or.inr nine_lt_charNext.1) nine_lt_charNext.2 (by omega)
  | succ w ih =>
    intro m rounding rest hm hrest hsize
    by_cases hlast : m % 10 < 9
    · exact cvtRoundLoop_pending_stop hm hlast hrest
    · have hnine : m % 10 = 9 := by omega
      have hcarry := @cvtRoundLoop_carry bufferSize (decimalDigits w (m / 10 / 10)) rest
        (charNext (Nat.digitChar 9)) rounding (Nat.digitChar (m / 10 % 10))
        (Or.inr nine_lt_charNext.1) nine_lt_charNext.2
      have hnext := @ih (m / 10) '0' (rounding :: rest)
        (by rwa [Nat.div_lt_iff_lt_mul (by decide), ← Nat.pow_succ]) nofun
        (by rw [length_cons]; omega)
      rw [length_decimalDigits, hnext] at hcarry
      rw [hnine, decimalDigits_succ, append_assoc, grownDigits_succ_of_nine hnine, append_assoc]
      exact hcarry

/-- **The loop rounds** the digits in front of the last one. -/
theorem cvtRoundLoop_round {r : ℕ} (hm : m < 10 ^ (w + 1)) (hr : r < 10)
    (hsize : w + 4 < bufferSize) :
    cvtRoundLoop bufferSize (w + 1) (decimalDigits (w + 1) m ++ [Nat.digitChar r]) =
      .ok (grownDigits (w + 1) ((m * 10 + r + 5) / 10) ++ [Nat.digitChar r]) := by
  have hfits : grownDigits (w + 1) m = decimalDigits (w + 1) m := by rw [grownDigits, if_pos hm]
  by_cases hup : 5 ≤ r
  · have hcond : (([] : Str) = [] ∧ '5' ≤ Nat.digitChar r) ∨ '9' < Nat.digitChar (m % 10) :=
      Or.inl ⟨rfl, (five_le_digitChar r hr).mpr hup⟩
    have hvalue : (m * 10 + r + 5) / 10 = m + 1 := by omega
    rw [hvalue]
    by_cases hlast : m % 10 < 9
    · have hincrement := @cvtRoundLoop_increment bufferSize (decimalDigits w (m / 10)) []
        (Nat.digitChar (m % 10)) (Nat.digitChar r) hcond
        (by rw [nine_le_digitChar _ (by omega)]; omega)
      rw [length_decimalDigits, charNext_digitChar _ hlast, cvtRoundLoop_digits] at hincrement
      rw [decimalDigits_succ, append_assoc, grownDigits_succ_of_lt hm hlast, append_assoc]
      exact hincrement
    · have hnine : m % 10 = 9 := by omega
      rw [hnine] at hcond
      have hnine' := (nine_le_digitChar 9 (by decide)).mpr rfl
      cases w with
      | zero =>
        have hm9 : m = 9 := by omega
        rw [hm9]
        exact cvtRoundLoop_grow hcond hnine' (by rw [length_nil]; omega)
      | succ w =>
        have hcarry := @cvtRoundLoop_carry bufferSize (decimalDigits w (m / 10 / 10)) [] '9'
          (Nat.digitChar r) (Nat.digitChar (m / 10 % 10)) hcond hnine'
        have hnext := @cvtRoundLoop_pending bufferSize w (m / 10) '0' [Nat.digitChar r]
          (by rwa [Nat.div_lt_iff_lt_mul (by decide), ← Nat.pow_succ]) nofun
          (by rw [length_singleton]; omega)
        rw [length_decimalDigits, hnext] at hcarry
        rw [decimalDigits_succ, decimalDigits_succ, hnine, append_assoc, append_assoc,
          grownDigits_succ_of_nine hnine, append_assoc]
        exact hcarry
  · have hvalue : (m * 10 + r + 5) / 10 = m := by omega
    have hstop := @cvtRoundLoop_stop bufferSize (decimalDigits w (m / 10)) [] (Nat.digitChar (m % 10))
      (Nat.digitChar r) (by
        rintro (h | h)
        · exact hup ((five_le_digitChar r hr).mp h.2)
        · exact digitChar_le_nine _ (by omega) h)
    rw [length_decimalDigits] at hstop
    rw [hvalue, hfits, decimalDigits_succ, append_assoc]
    exact hstop

/-- `cvtRound` of two digits or more. -/
theorem cvtRound_decimalDigits (hn : n < 10 ^ (w + 2)) (hsize : w + 4 < bufferSize) :
    cvtRound (decimalDigits (w + 2) n) bufferSize = .ok (grownDigits (w + 1) ((n + 5) / 10)) := by
  have hdiv : n / 10 < 10 ^ (w + 1) := by rwa [Nat.div_lt_iff_lt_mul (by decide), ← Nat.pow_succ]
  have hround := cvtRoundLoop_round hdiv (Nat.mod_lt n (by decide : 0 < 10)) hsize
  have hn' : n / 10 * 10 + n % 10 = n := by omega
  rw [hn'] at hround
  unfold cvtRound
  rw [length_decimalDigits, decimalDigits_succ]
  show (cvtRoundLoop bufferSize (w + 1) _ >>= fun buffer => _) = _
  rw [hround]
  have hne : grownDigits (w + 1) ((n + 5) / 10) ++ [Nat.digitChar (n % 10)] ≠ [] :=
    append_ne_nil_of_right_ne_nil _ (cons_ne_nil _ _)
  refine (if_neg hne).trans ?_
  rw [dropLast_concat]

/-- `cvtRound` of one digit leaves nothing. -/
theorem cvtRound_one (bufferSize n : ℕ) : cvtRound (decimalDigits 1 n) bufferSize = .ok [] := rfl

/-! ## The decimal point -/

theorem decimalDigits_ne_point {w n : ℕ} {c : Char} (hc : c ∈ decimalDigits w n) : c ≠ '.' := by
  have ⟨i, hi, heq⟩ := FixedWidth.mem_digits Nat.digitChar 10 (by decide) hc
  have hdigits : ∀ i < 10, Nat.digitChar i ≠ '.' := by decide
  rw [heq]
  exact hdigits i hi

variable {precision : ℕ}

theorem decimalDigits_split (n : ℕ) (h : precision ≤ w) :
    decimalDigits w n = decimalDigits (w - precision) (n / 10 ^ precision)
      ++ decimalDigits precision (n % 10 ^ precision) := by
  have hlt : n % 10 ^ precision < 10 ^ precision := Nat.mod_lt _ (Nat.pow_pos (by decide))
  have happend := FixedWidth.digits_append Nat.digitChar 10 (w - precision) precision
    (n / 10 ^ precision) hlt
  rw [Nat.sub_add_cancel h, Nat.div_add_mod'] at happend
  exact happend

theorem cvtTrim_append {fraction : Str} (hpoint : ∀ c ∈ fraction, c ≠ '.') (rest : Str) :
    cvtTrim (fraction ++ '.' :: rest) =
      if fraction.dropWhile (· = '0') = [] then (if rest = [] then .error .bounds else .ok rest)
      else .ok (fraction.dropWhile (· = '0') ++ '.' :: rest) := by
  induction fraction with
  | nil => rfl
  | cons c fraction ih =>
    have hc := hpoint c mem_cons_self
    have ih := ih fun c hc => hpoint c (mem_cons_of_mem _ hc)
    have hne : fraction ++ '.' :: rest ≠ [] := append_ne_nil_of_right_ne_nil _ nofun
    rw [cons_append, cvtTrim]
    by_cases hzero : c = '0'
    · have hdrop : (c :: fraction).dropWhile (· = '0') = fraction.dropWhile (· = '0') :=
        dropWhile_cons_of_pos (by simpa using hzero)
      rw [if_pos (Or.inl hzero), if_neg hne, if_neg hc, ih, hdrop]
    · rw [if_neg (not_or.mpr ⟨hzero, hc⟩), dropWhile_cons_of_neg (by simpa using hzero)]
      rfl

def cvtDecimal (precision : ℕ) (trim : Bool) (value : ℕ) : Str :=
  let fraction := decimalDigits precision (value % 10 ^ precision)
  let fraction := if trim then fraction.rdropWhile (· = '0') else fraction
  let whole := Nat.toDigits 10 (value / 10 ^ precision)
  if fraction = [] then whole else whole ++ '.' :: fraction

theorem decimalDigits_digitsTotal (n : ℕ) : decimalDigits (digitsTotal n) n = Nat.toDigits 10 n := by
  induction n using Nat.strong_induction_on with
  | _ n ih =>
    by_cases hn : n < 10
    · have hdigits := Nat.toDigits_of_lt_base (b := 10) hn
      have htotal : digitsTotal n = 1 := by rw [digitsTotal, hdigits]; rfl
      rw [htotal, hdigits, decimalDigits_succ, Nat.mod_eq_of_lt hn]
      rfl
    · have hdigits := Nat.toDigits_of_base_le (b := 10) (by decide) (not_lt.mp hn)
      have htotal : digitsTotal n = digitsTotal (n / 10) + 1 := by
        rw [digitsTotal, hdigits, length_append]
        rfl
      rw [htotal, decimalDigits_succ, ih _ (by omega), hdigits]

theorem digitsTotal_le_iff (hw : 0 < w) : digitsTotal n ≤ w ↔ n < 10 ^ w :=
  Nat.length_toDigits_le_iff (by decide) hw

theorem digitsTotal_pos (n : ℕ) : 0 < digitsTotal n := Nat.length_toDigits_pos

theorem digitsTotal_eq (hhigh : n < 10 ^ (w + 1)) (hlow : 10 ^ w ≤ n) :
    digitsTotal n = w + 1 := by
  have hle := (digitsTotal_le_iff (Nat.succ_pos w)).mpr hhigh
  refine Nat.le_antisymm hle (Nat.succ_le_of_lt ?_)
  rcases Nat.eq_zero_or_pos w with hw | hw
  · rw [hw]
    exact digitsTotal_pos n
  · exact not_le.mp fun h => absurd ((digitsTotal_le_iff hw).mp h) (not_lt.mpr hlow)

theorem digitsTotal_div (hpos : 0 < precision) (hlt : precision < digitsTotal n) :
    digitsTotal (n / 10 ^ precision) = digitsTotal n - precision := by
  have ⟨k, hk⟩ : ∃ k, digitsTotal n = k + 1 + precision :=
    ⟨digitsTotal n - precision - 1, by omega⟩
  have hhigh : n < 10 ^ (k + 1 + precision) :=
    (digitsTotal_le_iff (by omega)).mp hk.le
  have hlow : 10 ^ (k + precision) ≤ n := by
    refine not_lt.mp fun h => ?_
    have hle := (digitsTotal_le_iff (Nat.add_pos_right k hpos)).mpr h
    omega
  have hten : 0 < 10 ^ precision := Nat.pow_pos (by decide)
  rw [Nat.pow_add] at hhigh hlow
  rw [hk, Nat.add_sub_cancel]
  exact digitsTotal_eq ((Nat.div_lt_iff_lt_mul hten).mpr hhigh) ((Nat.le_div_iff_mul_le hten).mpr hlow)

/-- **The point** is put in front of the decimals of a number that has more
digits. -/
theorem cvtFraction_decimalDigits {value : ℕ} (trim : Bool) (hpos : 0 < precision)
    (hlt : precision < digitsTotal value) (hsize : digitsTotal value + 1 < bufferSize) :
    cvtFraction precision trim (decimalDigits (digitsTotal value) value) bufferSize
      = .ok (cvtDecimal precision trim value) := by
  have hsplit := decimalDigits_split value hlt.le
  rw [← digitsTotal_div hpos hlt, decimalDigits_digitsTotal (value / _)] at hsplit
  have hpoint : ∀ c ∈ (decimalDigits precision (value % 10 ^ precision)).reverse, c ≠ '.' :=
    fun c hc => decimalDigits_ne_point (mem_reverse.mp hc)
  have hfraction : decimalDigits precision (value % 10 ^ precision) ≠ [] := by
    refine ne_nil_of_length_pos ?_
    rwa [length_decimalDigits]
  have hwhole : (Nat.toDigits 10 (value / 10 ^ precision)).reverse ≠ [] :=
    fun h => Nat.toDigits_ne_nil (reverse_eq_nil_iff.mp h)
  have hlength : digitsTotal value - precision = (Nat.toDigits 10 (value / 10 ^ precision)).length :=
    (digitsTotal_div hpos hlt).symm
  unfold cvtFraction
  rw [length_decimalDigits, if_neg (by omega), if_neg (by omega), hsplit, hlength, take_left,
    drop_left]
  cases trim with
  | false =>
    exact congrArg Except.ok (if_neg hfraction).symm
  | true =>
    show (cvtTrim (_ ++ '.' :: _).reverse).map reverse = _
    have hreverse : ∀ a b : Str, (a ++ '.' :: b).reverse = b.reverse ++ '.' :: a.reverse := by simp
    rw [hreverse, cvtTrim_append hpoint, if_neg hwhole]
    show _ = Except.ok (if ((decimalDigits precision _).reverse.dropWhile (· = '0')).reverse = [] then _
      else _ ++ '.' :: ((decimalDigits precision _).reverse.dropWhile (· = '0')).reverse)
    by_cases hzeros : (decimalDigits precision (value % 10 ^ precision)).reverse.dropWhile (· = '0') = []
    · rw [if_pos hzeros, if_pos (reverse_eq_nil_iff.mpr hzeros)]
      exact congrArg Except.ok (reverse_reverse _)
    · rw [if_neg hzeros, if_neg (fun h => hzeros (reverse_eq_nil_iff.mp h))]
      refine congrArg Except.ok ?_
      rw [reverse_append, reverse_cons, reverse_reverse, append_assoc]
      rfl

theorem cvtDecimal_ne_point (precision : ℕ) (trim : Bool) (value : ℕ) (rest : Str) :
    cvtDecimal precision trim value ≠ '.' :: rest := by
  have ⟨c, digits, heq⟩ := exists_cons_of_ne_nil
    (Nat.toDigits_ne_nil (n := value / 10 ^ precision) (b := 10))
  have hc : c ≠ '.' := by
    refine @decimalDigits_ne_point (digitsTotal (value / 10 ^ precision)) (value / 10 ^ precision) c ?_
    rw [decimalDigits_digitsTotal, heq]
    exact mem_cons_self
  have hhead : (cvtDecimal precision trim value).head? = some c := by
    unfold cvtDecimal
    rw [heq]
    show head? (if (if trim then _ else _) = [] then _ else _) = _
    generalize (if trim then _ else _) = fraction
    by_cases hnil : fraction = []
    · rw [if_pos hnil]
      rfl
    · rw [if_neg hnil]
      rfl
  intro h
  rw [h] at hhead
  exact hc (Option.some.inj hhead).symm

/-- Without a digit in front of the point the text is not a number. -/
theorem cvtFraction_short (trim : Bool) {buffer : Str}
    (hshort : buffer.length ≤ precision) (hpoint : ∀ c ∈ buffer, c ≠ '.') (value : ℕ) :
    cvtFraction precision trim buffer bufferSize ≠ .ok (cvtDecimal precision trim value) := by
  unfold cvtFraction
  by_cases hsize : buffer.length + 1 ≥ bufferSize
  · rw [if_pos hsize]
    nofun
  by_cases hlt : buffer.length < precision
  · rw [if_neg hsize, if_pos hlt]
    nofun
  have hzero : buffer.length - precision = 0 := by omega
  rw [if_neg hsize, if_neg hlt, hzero]
  cases trim with
  | false => exact fun h => cvtDecimal_ne_point _ _ _ _ (Except.ok.inj h).symm
  | true =>
    show (cvtTrim ('.' :: buffer).reverse).map reverse ≠ _
    have hpoint' : ∀ c ∈ buffer.reverse, c ≠ '.' := fun c hc => hpoint c (mem_reverse.mp hc)
    rw [reverse_cons, cvtTrim_append hpoint', if_pos rfl]
    by_cases hzeros : buffer.reverse.dropWhile (· = '0') = []
    · rw [if_pos hzeros]
      nofun
    · rw [if_neg hzeros]
      show Except.ok (reverse (_ ++ ['.'])) ≠ _
      rw [reverse_append]
      exact fun h => cvtDecimal_ne_point _ _ _ _ (Except.ok.inj h).symm

/-- The quotient with decimals, as an integer: rounded half up when one more
decimal fits 64 bits, and down when not. -/
def cvtDivValue (dividend divisor precision : ℕ) : ℕ :=
  if dividend * 10 ^ (precision + 1) ≤ UINT64_MAX then
    (2 * (dividend * 10 ^ precision) + divisor) / (2 * divisor)
  else dividend * 10 ^ precision / divisor

/-- When the text has a digit in front of the point: the value is at least one,
or the quotient itself is when there are no decimals and the value is rounded. -/
def CvtDivWhole (dividend divisor precision : ℕ) : Prop :=
  if precision = 0 then divisor ≤ dividend ∨ UINT64_MAX / 10 < dividend
  else 10 ^ precision ≤ cvtDivValue dividend divisor precision

/-- One more digit, rounded half up, is the quotient rounded half up. -/
theorem round_div (x : ℕ) {divisor : ℕ} (hdivisor : 0 < divisor) :
    (x * 10 / divisor + 5) / 10 = (2 * x + divisor) / (2 * divisor) := by
  have hfive : x * 10 / divisor + 5 = (x * 10 + 5 * divisor) / divisor := by
    rw [Nat.add_mul_div_right _ _ hdivisor]
  have hten : x * 10 + 5 * divisor = 5 * (2 * x + divisor) := by omega
  have hdouble : divisor * 10 = 5 * (2 * divisor) := by omega
  rw [hfive, Nat.div_div_eq_div_mul, hten, hdouble, Nat.mul_div_mul_left _ _ (by decide)]

/-- How many digits are left after rounding, if the padding is not among them. -/
theorem digitsTotal_round (hw : max precision (digitsTotal n) = w + 2) :
    (n + 5) / 10 < 10 ^ (w + 2) ∧
      ((n + 5) / 10 < 10 ^ (w + 1) → precision < w + 1 → digitsTotal ((n + 5) / 10) = w + 1) ∧
      (¬ (n + 5) / 10 < 10 ^ (w + 1) → digitsTotal ((n + 5) / 10) = w + 2) := by
  have hn : n < 10 ^ (w + 2) :=
    (digitsTotal_le_iff (by omega)).mp ((Nat.le_max_right _ _).trans hw.le)
  have hlt : (n + 5) / 10 < 10 ^ (w + 2) := by omega
  refine ⟨hlt, fun hfits hprecision => digitsTotal_eq hfits ?_, fun hgrown =>
    digitsTotal_eq hlt (not_lt.mp hgrown)⟩
  have hlow : 10 ^ (w + 1) ≤ n := by
    refine not_lt.mp fun h => ?_
    have hle := (digitsTotal_le_iff (Nat.succ_pos w)).mpr h
    omega
  omega

/-- What is printed has at most as many digits as the largest value. -/
theorem digitsTotal_le_twenty {x : ℕ} (hx : x ≤ UINT64_MAX) (hn : n ≤ x) : digitsTotal n ≤ 20 := by
  have hmax : UINT64_MAX < 10 ^ 20 := by decide
  exact (digitsTotal_le_iff (by decide)).mpr (hn.trans_lt (hx.trans_lt hmax))

/-- The text in front of the point, its length, and what decides whether it has
more digits than there are decimals. -/
structure CvtDivText (dividend divisor precision : ℕ) (trim : Bool) (bufferSize length : ℕ) : Prop where
  le_twenty : length ≤ 20
  text : cvtDivToZ dividend divisor precision trim bufferSize =
    (if precision > 0 then
      cvtFraction precision trim
        (decimalDigits length (cvtDivValue dividend divisor precision)) bufferSize
    else .ok (decimalDigits length (cvtDivValue dividend divisor precision)))
  whole : precision < length ↔ CvtDivWhole dividend divisor precision
  total : precision < length → digitsTotal (cvtDivValue dividend divisor precision) = length

section Text

variable {dividend divisor precision bufferSize : ℕ}

/-- `cvtDivToZ` when it can round. -/
theorem cvtDivToZ_round (hprecision : precision ≤ 3) (hdividend : dividend ≤ UINT64_MAX / 10 ^ precision)
    (hround : dividend * 10 ^ (precision + 1) ≤ UINT64_MAX) (trim : Bool)
    (hlength : (uintToZ precision (dividend * 10 ^ (precision + 1) / divisor)).length < bufferSize) :
    cvtDivToZ dividend divisor precision trim bufferSize =
      (cvtRound (uintToZ precision (dividend * 10 ^ (precision + 1) / divisor)) bufferSize >>=
        fun buffer =>
          if precision > 0 then cvtFraction precision trim buffer bufferSize else .ok buffer) := by
  have hten : 0 < 10 ^ (precision + 1) := Nat.pow_pos (by decide)
  have hround' : decide (dividend ≤ UINT64_MAX / (10 ^ precision * 10)) = true :=
    decide_eq_true ((Nat.le_div_iff_mul_le hten).mpr hround)
  refine (if_neg (not_lt.mpr hprecision)).trans ((if_neg (not_lt.mpr hdividend)).trans ?_)
  show ite _ _ _ = _
  rw [hround']
  exact if_neg (not_le.mpr hlength)

/-- `cvtDivToZ` when it cannot. -/
theorem cvtDivToZ_down (hprecision : precision ≤ 3) (hdividend : dividend ≤ UINT64_MAX / 10 ^ precision)
    (hround : ¬ dividend * 10 ^ (precision + 1) ≤ UINT64_MAX) (trim : Bool)
    (hlength : (uintToZ precision (dividend * 10 ^ precision / divisor)).length < bufferSize) :
    cvtDivToZ dividend divisor precision trim bufferSize =
      (if precision > 0 then
        cvtFraction precision trim (uintToZ precision (dividend * 10 ^ precision / divisor)) bufferSize
      else .ok (uintToZ precision (dividend * 10 ^ precision / divisor))) := by
  have hten : 0 < 10 ^ (precision + 1) := Nat.pow_pos (by decide)
  have hround' : decide (dividend ≤ UINT64_MAX / (10 ^ precision * 10)) = false :=
    decide_eq_false fun h => hround ((Nat.le_div_iff_mul_le hten).mp h)
  refine (if_neg (not_lt.mpr hprecision)).trans ((if_neg (not_lt.mpr hdividend)).trans ?_)
  show ite _ _ _ = _
  rw [hround']
  exact if_neg (not_le.mpr hlength)

/-- A value that has no more digits than are printed is at least one iff its
digits are not only decimals. -/
theorem lt_length_iff {value length : ℕ} (hpos : 0 < precision) (hfits : value < 10 ^ length)
    (htotal : precision < length → digitsTotal value = length) :
    precision < length ↔ 10 ^ precision ≤ value := by
  constructor
  · intro hlt
    have hlow := mt (digitsTotal_le_iff hpos).mpr (not_le.mpr (htotal hlt ▸ hlt))
    exact not_lt.mp hlow
  · exact fun hlow => (Nat.pow_lt_pow_iff_right (by decide)).mp (hlow.trans_lt hfits)

/-- A single digit is rounded away, and the quotient is below one. -/
theorem not_cvtDivWhole (hdivisor : 0 < divisor) (hround : dividend * 10 ^ (precision + 1) ≤ UINT64_MAX)
    (hvalue : cvtDivValue dividend divisor precision
      = (dividend * 10 ^ (precision + 1) / divisor + 5) / 10)
    (hone : max precision (digitsTotal (dividend * 10 ^ (precision + 1) / divisor)) = 1) :
    ¬ CvtDivWhole dividend divisor precision := by
  have hdigit : dividend * 10 ^ (precision + 1) / divisor < 10 ^ 1 :=
    (digitsTotal_le_iff (by decide)).mp ((Nat.le_max_right _ _).trans hone.le)
  unfold CvtDivWhole
  by_cases hzero : precision = 0
  · rw [if_pos hzero]
    rw [hzero, Nat.zero_add, Nat.pow_one] at hround hdigit
    rw [Nat.div_lt_iff_lt_mul hdivisor] at hdigit
    omega
  · have hprecision : precision = 1 := by omega
    rw [if_neg hzero, hvalue, hprecision]
    rw [hprecision] at hdigit
    omega

theorem exists_cvtDivText_round (hdivisor : 0 < divisor) (hprecision : precision ≤ 3)
    (hdividend : dividend ≤ UINT64_MAX / 10 ^ precision) (hsize : CVT_DIV_BUFFER_SIZE ≤ bufferSize)
    (hround : dividend * 10 ^ (precision + 1) ≤ UINT64_MAX) (trim : Bool) :
    ∃ length, CvtDivText dividend divisor precision trim bufferSize length := by
  have hbuffer : 68 ≤ bufferSize := hsize
  have hvalue : cvtDivValue dividend divisor precision
      = (dividend * 10 ^ (precision + 1) / divisor + 5) / 10 := by
    rw [cvtDivValue, if_pos hround, Nat.pow_succ, ← Nat.mul_assoc dividend, round_div _ hdivisor]
  have hnot := not_cvtDivWhole hdivisor hround hvalue
  have hprinted := digitsTotal_le_twenty hround (Nat.div_le_self _ divisor)
  generalize hn : dividend * 10 ^ (precision + 1) / divisor = n at hvalue hprinted hnot
  have hpos := digitsTotal_pos n
  have htext := @cvtDivToZ_round dividend divisor precision bufferSize hprecision hdividend hround trim
    (by rw [hn, uintToZ, length_decimalDigits]; omega)
  rw [hn, uintToZ] at htext
  by_cases hone : max precision (digitsTotal n) = 1
  · rw [hone, cvtRound_one] at htext
    exact ⟨0, by decide, htext, iff_of_false (Nat.not_lt_zero _) (hnot hone),
      fun h => absurd h (Nat.not_lt_zero _)⟩
  have ⟨w, hw⟩ : ∃ w, max precision (digitsTotal n) = w + 2 :=
    ⟨max precision (digitsTotal n) - 2, by omega⟩
  have hn' : n < 10 ^ (w + 2) :=
    (digitsTotal_le_iff (by omega)).mp ((Nat.le_max_right _ _).trans hw.le)
  have ⟨hgrown, htotal, htotal'⟩ := digitsTotal_round hw
  rw [hw, cvtRound_decimalDigits hn' (by omega), ← hvalue] at htext
  rw [← hvalue] at hgrown htotal htotal'
  have hfits : cvtDivValue dividend divisor precision
      < 10 ^ (if cvtDivValue dividend divisor precision < 10 ^ (w + 1) then w + 1 else w + 2) := by
    split
    · assumption
    · exact hgrown
  have htotals : precision < (if cvtDivValue dividend divisor precision < 10 ^ (w + 1) then w + 1 else w + 2)
      → digitsTotal (cvtDivValue dividend divisor precision)
        = if cvtDivValue dividend divisor precision < 10 ^ (w + 1) then w + 1 else w + 2 := by
    split
    · exact htotal ‹_›
    · exact fun _ => htotal' ‹_›
  refine ⟨_, ?_, htext, ?_, htotals⟩
  · split <;> omega
  · unfold CvtDivWhole
    by_cases hzero : precision = 0
    · rw [if_pos hzero, hzero]
      refine iff_of_true (by split <;> omega) (Or.inl ?_)
      have hdigits : ¬ n < 10 ^ 1 := by
        rw [← digitsTotal_le_iff (by decide)]
        omega
      rw [← hn, hzero, Nat.div_lt_iff_lt_mul hdivisor] at hdigits
      omega
    · rw [if_neg hzero]
      exact lt_length_iff (Nat.pos_of_ne_zero hzero) hfits htotals

theorem exists_cvtDivText_down (hprecision : precision ≤ 3)
    (hdividend : dividend ≤ UINT64_MAX / 10 ^ precision) (hsize : CVT_DIV_BUFFER_SIZE ≤ bufferSize)
    (hround : ¬ dividend * 10 ^ (precision + 1) ≤ UINT64_MAX) (trim : Bool) :
    ∃ length, CvtDivText dividend divisor precision trim bufferSize length := by
  have hbuffer : 68 ≤ bufferSize := hsize
  have hvalue : cvtDivValue dividend divisor precision = dividend * 10 ^ precision / divisor :=
    if_neg hround
  have hprinted := digitsTotal_le_twenty
    ((Nat.le_div_iff_mul_le (Nat.pow_pos (by decide))).mp hdividend) (Nat.div_le_self _ divisor)
  have htext := @cvtDivToZ_down dividend divisor precision bufferSize hprecision hdividend hround trim
    (by rw [uintToZ, length_decimalDigits]; omega)
  have hpos := digitsTotal_pos (dividend * 10 ^ precision / divisor)
  rw [uintToZ] at htext
  rw [← hvalue] at hprinted hpos htext
  refine ⟨_, ?_, htext, ?_, ?_⟩
  · omega
  · unfold CvtDivWhole
    by_cases hzero : precision = 0
    · have hlarge : UINT64_MAX / 10 < dividend := by
        rw [hzero, Nat.zero_add, Nat.pow_one] at hround
        exact (Nat.div_lt_iff_lt_mul (by decide)).mpr (not_le.mp hround)
      rw [if_pos hzero]
      exact iff_of_true (by omega) (Or.inr hlarge)
    · rw [if_neg hzero]
      refine lt_length_iff (Nat.pos_of_ne_zero hzero) ?_ (by omega)
      exact (digitsTotal_le_iff (by omega)).mp (Nat.le_max_right _ _)
  · omega

end Text

/-- **Quotients are printed exactly** when there is a digit in front of the
point. -/
theorem cvtDivToZ_exact {dividend divisor precision bufferSize : ℕ} (hdivisor : 0 < divisor)
    (hprecision : precision ≤ 3) (hdividend : dividend ≤ UINT64_MAX / 10 ^ precision)
    (hsize : CVT_DIV_BUFFER_SIZE ≤ bufferSize) (trim : Bool) :
    cvtDivToZ dividend divisor precision trim bufferSize
        = .ok (cvtDecimal precision trim (cvtDivValue dividend divisor precision))
      ↔ CvtDivWhole dividend divisor precision := by
  have hbuffer : 68 ≤ bufferSize := hsize
  have ⟨length, hlength, htext, hwhole, htotal⟩ :
      ∃ length, CvtDivText dividend divisor precision trim bufferSize length := by
    by_cases hround : dividend * 10 ^ (precision + 1) ≤ UINT64_MAX
    · exact exists_cvtDivText_round hdivisor hprecision hdividend hsize hround trim
    · exact exists_cvtDivText_down hprecision hdividend hsize hround trim
  rw [htext, ← hwhole]
  by_cases hpos : precision > 0
  · rw [if_pos hpos]
    constructor
    · refine fun h => not_le.mp fun hshort => cvtFraction_short trim ?_ (fun c => decimalDigits_ne_point)
        _ h
      rwa [length_decimalDigits]
    · intro hlt
      have htotal := htotal hlt
      rw [← htotal]
      exact cvtFraction_decimalDigits trim hpos (by omega) (by omega)
  · have hzero : precision = 0 := by omega
    have hdecimal : cvtDecimal precision trim (cvtDivValue dividend divisor precision)
        = Nat.toDigits 10 (cvtDivValue dividend divisor precision) := by
      unfold cvtDecimal
      rw [hzero, Nat.pow_zero, Nat.div_one]
      cases trim <;> rfl
    rw [if_neg hpos, hdecimal]
    constructor
    · intro h
      have heq := congrArg List.length (Except.ok.inj h)
      rw [length_decimalDigits] at heq
      rw [hzero, heq]
      exact digitsTotal_pos _
    · intro hlt
      rw [← htotal hlt, decimalDigits_digitsTotal]

/-- Half up. -/
theorem cvtDivToZ_exact_half :
    cvtDivToZ 5 4 1 false CVT_DIV_BUFFER_SIZE = .ok "1.3".toList :=
  (@cvtDivToZ_exact 5 4 1 CVT_DIV_BUFFER_SIZE (by decide) (by decide) (by decide) le_rfl false).mpr
    (show 10 ^ 1 ≤ cvtDivValue 5 4 1 by decide)

/-- Half a second is printed without a digit in front of the point, and a
millisecond has the point in front of the buffer. -/
theorem strNewDiv_below_one :
    strNewDiv 500 1000 3 true = .ok ".5".toList ∧ cvtDecimal 3 true (cvtDivValue 500 1000 3) = "0.5".toList
      ∧ strNewDiv 1 1000 3 true = .error .bounds
      ∧ cvtDecimal 3 true (cvtDivValue 1 1000 3) = "0.001".toList := by
  decide +kernel

end PgxBackup
