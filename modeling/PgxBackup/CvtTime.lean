import Mathlib.Algebra.BigOperators.Intervals
import PgxBackup.CvtDiv

/-!
# Dates and times as text

`cvtZToTime` reads a date and a time, with or without a time zone. With a time
zone the number of seconds since the beginning of 1970 is computed from the
parts by a formula.

The formula is evaluated as an `int`, which is too small from 2038 on. The sign
of the time zone is kept in its hour, so it is lost when the hour is zero.
-/

namespace PgxBackup

/-- What goes wrong: an error, or an `int` that overflows. -/
inductive TimeError where
  | error (error : Error)
  | overflow
  deriving DecidableEq

/-! ## Arithmetic -/

def INT_MIN : ℤ := -2 ^ 31

def INT_MAX : ℤ := 2 ^ 31 - 1

/-- A result of `int` arithmetic. -/
def intResult (n : ℤ) : Except TimeError ℤ :=
  if INT_MIN ≤ n ∧ n ≤ INT_MAX then .ok n else .error .overflow

def intAdd (a b : ℤ) : Except TimeError ℤ := intResult (a + b)

def intSub (a b : ℤ) : Except TimeError ℤ := intResult (a - b)

def intMul (a b : ℤ) : Except TimeError ℤ := intResult (a * b)

def intDiv (a b : ℤ) : Except TimeError ℤ := intResult (a.tdiv b)

/-- `%0*d`. -/
def intToZ (width : ℕ) (n : ℤ) : Str :=
  if n < 0 then '-' :: uintToZ (width - 1) n.natAbs else uintToZ width n.natAbs

/-! ## Dates and times -/

/-- `yearIsLeap`. -/
def yearIsLeap (year : ℤ) : Bool :=
  (year.tmod 4 = 0 && year.tmod 100 ≠ 0) || year.tmod 400 = 0

def daysPerMonth (leap : Bool) : List ℤ :=
  if leap then [31, 29, 31, 30, 31, 30, 31, 31, 30, 31, 30, 31]
  else [31, 28, 31, 30, 31, 30, 31, 31, 30, 31, 30, 31]

def cumulativeDaysPerMonth (leap : Bool) : List ℤ :=
  if leap then [0, 31, 60, 91, 121, 152, 182, 213, 244, 274, 305, 335]
  else [0, 31, 59, 90, 120, 151, 181, 212, 243, 273, 304, 334]

/-- `datePartsValid`. -/
def datePartsValid (year month day : ℤ) : Except TimeError Unit :=
  if year ≥ 1970 ∧ month > 0 ∧ month ≤ 12 ∧ day > 0
      ∧ day ≤ (daysPerMonth (yearIsLeap year)).getD (month - 1).toNat 0 then .ok ()
  else .error (.error ⟨.formatError, "invalid date ".toList ++ intToZ 4 year ++ '-' :: intToZ 2 month
    ++ '-' :: intToZ 2 day⟩)

/-- `timePartsValid`. -/
def timePartsValid (hour minute second : ℤ) : Except TimeError Unit :=
  if hour ≥ 0 ∧ hour < 24 ∧ minute ≥ 0 ∧ minute < 60 ∧ second ≥ 0 ∧ second < 60 then .ok ()
  else .error (.error ⟨.formatError, "invalid time ".toList ++ intToZ 2 hour ++ ':' :: intToZ 2 minute
    ++ ':' :: intToZ 2 second⟩)

/-- `tzPartsValid`. -/
def tzPartsValid (tzHour tzMinute : ℤ) : Except TimeError Unit :=
  if ((tzHour > -12 ∧ tzHour < 14) ∧ tzMinute.tmod 15 = 0) ∨ (tzHour = -12 ∧ tzMinute = 0)
      ∨ (tzHour = 14 ∧ tzMinute = 0) then .ok ()
  else .error (.error ⟨.formatError, "invalid timezone ".toList ++ intToZ 2 tzHour ++ intToZ 2 tzMinute⟩)

/-- `tzOffsetSeconds`. -/
def tzOffsetSeconds (tzHour tzMinute : ℤ) : Except TimeError ℤ := do
  tzPartsValid tzHour tzMinute
  -- preserve the sign and convert the hours to a positive number for calculating seconds
  let sign := if tzHour < 0 then -1 else 1
  let tzHour ← if tzHour < 0 then intMul sign tzHour else .ok tzHour
  intMul sign (← intAdd (← intMul tzHour 3600) (← intMul tzMinute 60))

/-- `dayOfYear`. -/
def dayOfYear (year month day : ℤ) : Except TimeError ℤ := do
  datePartsValid year month day
  intAdd ((cumulativeDaysPerMonth (yearIsLeap year)).getD (month - 1).toNat 0) day

/-- `epochFromParts`. -/
def epochFromParts (year month day hour minute second tzOffsetSecond : ℤ) : Except TimeError ℤ := do
  timePartsValid hour minute second
  let result ← intMul (-1) tzOffsetSecond
  let result ← intAdd result second
  let result ← intAdd result (← intMul minute 60)
  let result ← intAdd result (← intMul hour 3600)
  let result ← intAdd result (← intMul (← intSub (← dayOfYear year month day) 1) 86400)
  let result ← intAdd result (← intMul (← intSub (← intSub year 1900) 70) 31536000)
  let result ← intAdd result (← intMul (← intDiv (← intSub (← intSub year 1900) 69) 4) 86400)
  let result ← intSub result (← intMul (← intDiv (← intSub (← intSub year 1900) 1) 100) 86400)
  intAdd result (← intMul (← intDiv (← intAdd (← intSub year 1900) 299) 400) 86400)

/-! ## Text -/

def invalidTime (time : Str) : TimeError := .error ⟨.formatError, "invalid date/time ".toList ++ time⟩

/-- The loop of `cvtZNToTimePart`, from the last digit of the part. A part has
at most four digits. -/
def cvtZNToTimePartLoop (time : Str) : Str → ℤ → ℤ → Except TimeError ℤ
  | [], result, _ => .ok result
  | c :: part, result, power =>
    if !c.isDigit then .error (invalidTime time)
    else cvtZNToTimePartLoop time part (result + ((c.toNat : ℤ) - '0'.toNat) * power) (power * 10)

/-- `cvtZNToTimePart`. -/
def cvtZNToTimePart (time part : Str) : Except TimeError ℤ :=
  cvtZNToTimePartLoop time part.reverse 0 1

/-- Consume milliseconds when present. -/
def cvtTimeFraction : Str → Str
  | [] => []
  | c :: part =>
    if (c = '.' ∨ c = ',') ∧ part.length + 1 ≥ 2 then part.dropWhile Char.isDigit else c :: part

/-- A broken-down local time. -/
structure Tm where
  year : ℤ
  mon : ℤ
  mday : ℤ
  hour : ℤ
  min : ℤ
  sec : ℤ

/-- The hour and the minute of a time zone, behind the sign. -/
def cvtTimeZone (time : Str) (sign : Char) (part : Str) : Except TimeError (ℤ × ℤ) := do
  let offsetHour := (← cvtZNToTimePart time (part.take 2)) * (if sign = '-' then -1 else 1)
  let part := part.drop 2
  -- offset separator is optional
  let part := if part.head? = some ':' then part.tail else part
  -- offset minutes are optional
  if part.length = 2 then
    let offsetMinute ← cvtZNToTimePart time part
    .ok (offsetHour, offsetMinute)
  -- make sure there is nothing left over
  else if part ≠ [] then .error (invalidTime time)
  else .ok (offsetHour, 0)

/-- `cvtZToTime`. Without a time zone the time is a local one. -/
def cvtZToTime (mktime : Tm → ℤ) (time : Str) : Except TimeError ℤ := do
  -- validate structure of date/time
  if time.length < 19 ∨ time[4]? ≠ some '-' ∨ time[7]? ≠ some '-' ∨ time[10]? ≠ some ' '
      ∨ time[13]? ≠ some ':' ∨ time[16]? ≠ some ':' then .error (invalidTime time)
  else
    let year ← cvtZNToTimePart time (strSubN time 0 4)
    let month ← cvtZNToTimePart time (strSubN time 5 2)
    let day ← cvtZNToTimePart time (strSubN time 8 2)
    let hour ← cvtZNToTimePart time (strSubN time 11 2)
    let minute ← cvtZNToTimePart time (strSubN time 14 2)
    let second ← cvtZNToTimePart time (strSubN time 17 2)
    datePartsValid year month day
    timePartsValid hour minute second
    match cvtTimeFraction (time.drop 19) with
    | [] => .ok (mktime ⟨year - 1900, month - 1, day, hour, minute, second⟩)
    | sign :: part =>
      -- add timezone offset when present
      if (sign = '+' ∨ sign = '-') ∧ part.length + 1 ≥ 3 then
        let (offsetHour, offsetMinute) ← cvtTimeZone time sign part
        epochFromParts year month day hour minute second (← tzOffsetSeconds offsetHour offsetMinute)
      -- make sure there is nothing left over
      else .error (invalidTime time)

/-! ## Arithmetic that does not overflow -/

theorem intResult_ok {n : ℤ} (hmin : -2147483648 ≤ n) (hmax : n ≤ 2147483647) : intResult n = .ok n :=
  if_pos ⟨hmin, hmax⟩

theorem intDiv_of_nonneg {a b : ℤ} (ha : 0 ≤ a) : intDiv a b = intResult (a / b) := by
  rw [intDiv, Int.tdiv_eq_ediv_of_nonneg ha]

/-- A number, unless it overflows. -/
def IntExact (x : Except TimeError ℤ) (n : ℤ) : Prop :=
  (x = .ok n ∧ n ≤ INT_MAX) ∨ x = .error .overflow

theorem intResult_exact (n : ℤ) : IntExact (intResult n) n := by
  unfold intResult
  split
  next h => exact Or.inl ⟨rfl, h.2⟩
  next h => exact Or.inr rfl

theorem intDiv_exact {a b : ℤ} (ha : 0 ≤ a) : IntExact (intDiv a b) (a / b) := by
  rw [intDiv_of_nonneg ha]
  exact intResult_exact _

theorem IntExact.bind {x : Except TimeError ℤ} {n m : ℤ} {f : ℤ → Except TimeError ℤ} (hx : IntExact x n)
    (hf : IntExact (f n) m) : IntExact (x >>= f) m := by
  rcases hx with ⟨rfl, -⟩ | rfl
  · exact hf
  · exact Or.inr rfl

/-! ## The formula -/

def daysOfYear (year : ℕ) : ℕ := if yearIsLeap year then 366 else 365

/-- The days from the beginning of 1970 to a date. -/
def daysSinceEpoch (year month day : ℕ) : ℤ :=
  (∑ y ∈ Finset.Ico 1970 year, (daysOfYear y : ℤ))
    + ((daysPerMonth (yearIsLeap year)).take (month - 1)).sum + (day - 1)

theorem yearIsLeap_iff (year : ℕ) :
    yearIsLeap year = true ↔ (year % 4 = 0 ∧ year % 100 ≠ 0) ∨ year % 400 = 0 := by
  unfold yearIsLeap
  rw [Int.tmod_eq_emod_of_nonneg (by omega), Int.tmod_eq_emod_of_nonneg (by omega),
    Int.tmod_eq_emod_of_nonneg (by omega), Bool.or_eq_true, Bool.and_eq_true, decide_eq_true_eq,
    decide_eq_true_eq, decide_eq_true_eq]
  omega

theorem sum_daysOfYear {year : ℕ} (hyear : 1970 ≤ year) :
    ∑ y ∈ Finset.Ico 1970 year, (daysOfYear y : ℤ)
      = ((year : ℤ) - 1970) * 365 + ((year : ℤ) - 1969) / 4 - ((year : ℤ) - 1901) / 100
        + ((year : ℤ) - 1601) / 400 := by
  induction year, hyear using Nat.le_induction with
  | base => decide
  | succ year hyear ih =>
    rw [Finset.sum_Ico_succ_top hyear, ih, daysOfYear]
    have hleap := yearIsLeap_iff year
    split
    next h =>
      rw [h, eq_self_iff_true, true_iff] at hleap
      push_cast
      omega
    next h =>
      have hnot := mt hleap.mpr h
      push_cast
      omega

theorem cumulativeDaysPerMonth_eq : ∀ leap, ∀ month ∈ Finset.Icc 1 12,
    (cumulativeDaysPerMonth leap).getD (month - 1) 0 = ((daysPerMonth leap).take (month - 1)).sum := by
  decide

theorem epoch_formula {year month day : ℕ} (hyear : 1970 ≤ year) (hour minute second offset : ℤ) :
    -1 * offset + second + minute * 60 + hour * 3600
        + (((daysPerMonth (yearIsLeap year)).take (month - 1)).sum + day - 1) * 86400
        + ((year : ℤ) - 1900 - 70) * 31536000 + ((year : ℤ) - 1900 - 69) / 4 * 86400
        - ((year : ℤ) - 1900 - 1) / 100 * 86400 + ((year : ℤ) - 1900 + 299) / 400 * 86400
      = daysSinceEpoch year month day * 86400 + (hour * 3600 + minute * 60 + second) - offset := by
  unfold daysSinceEpoch
  rw [sum_daysOfYear hyear]
  have h4 : (year : ℤ) - 1900 - 69 = year - 1969 := by omega
  have h100 : (year : ℤ) - 1900 - 1 = year - 1901 := by omega
  have h400 : (year : ℤ) - 1900 + 299 = year - 1601 := by omega
  rw [h4, h100, h400]
  ring

structure DateValid (year month day : ℕ) : Prop where
  year_ge : 1970 ≤ year
  month_mem : month ∈ Finset.Icc 1 12
  day_pos : 1 ≤ day
  day_le : (day : ℤ) ≤ (daysPerMonth (yearIsLeap year)).getD (month - 1) 0

def TimeValid (hour minute second : ℕ) : Prop := hour < 24 ∧ minute < 60 ∧ second < 60

section Epoch

variable {year month day hour minute second : ℕ} {offset : ℤ}

theorem daysPerMonth_le : ∀ leap, ∀ month ∈ Finset.Icc 1 12,
    (daysPerMonth leap).getD (month - 1) 0 ≤ 31 ∧ 0 ≤ ((daysPerMonth leap).take (month - 1)).sum
      ∧ ((daysPerMonth leap).take (month - 1)).sum ≤ 335 := by
  decide

theorem toNat_month {month : ℕ} (h : month ∈ Finset.Icc 1 12) : ((month : ℤ) - 1).toNat = month - 1 := by
  rw [Finset.mem_Icc] at h
  omega

theorem datePartsValid_ok (h : DateValid year month day) : datePartsValid year month day = .ok () := by
  have hmonth := Finset.mem_Icc.mp h.month_mem
  have hyear := h.year_ge
  have hday := h.day_pos
  refine if_pos ⟨by omega, by omega, by omega, by omega, ?_⟩
  rw [toNat_month h.month_mem]
  exact h.day_le

theorem dayOfYear_ok (h : DateValid year month day) :
    dayOfYear year month day = .ok (((daysPerMonth (yearIsLeap year)).take (month - 1)).sum + day) := by
  have hbounds := daysPerMonth_le (yearIsLeap year) month h.month_mem
  have hday := h.day_le
  unfold dayOfYear
  rw [datePartsValid_ok h, ok_bind, toNat_month h.month_mem, cumulativeDaysPerMonth_eq _ _ h.month_mem]
  exact intResult_ok (by omega) (by omega)

theorem timePartsValid_iff : timePartsValid hour minute second = .ok () ↔ TimeValid hour minute second := by
  unfold timePartsValid TimeValid
  constructor
  · intro h
    split at h
    next h => omega
    next => cases h
  · intro h
    exact if_pos (by omega)

section

variable (hdate : DateValid year month day) (htime : TimeValid hour minute second)
include hdate htime

/-- **The number of seconds is exact, or overflows.** -/
theorem epochFromParts_exact :
    IntExact (epochFromParts year month day hour minute second offset)
      (daysSinceEpoch year month day * 86400 + (hour * 3600 + minute * 60 + second) - offset) := by
  have hyear := hdate.year_ge
  unfold epochFromParts
  rw [timePartsValid_iff.mpr htime, ok_bind, dayOfYear_ok hdate,
    ← epoch_formula hyear]
  iterate 6 refine IntExact.bind (intResult_exact _) ?_
  rw [ok_bind]
  iterate 9 refine IntExact.bind (intResult_exact _) ?_
  refine IntExact.bind (intDiv_exact (by omega)) ?_
  iterate 4 refine IntExact.bind (intResult_exact _) ?_
  refine IntExact.bind (intDiv_exact (by omega)) ?_
  iterate 4 refine IntExact.bind (intResult_exact _) ?_
  refine IntExact.bind (intDiv_exact (by omega)) ?_
  exact IntExact.bind (intResult_exact _) (intResult_exact _)

/-- **The number of seconds does not overflow** if it is an `int`. -/
theorem epochFromParts_ok (hoffset : -86400 ≤ offset ∧ offset ≤ 86400)
    (hmax : daysSinceEpoch year month day * 86400 + (hour * 3600 + minute * 60 + second) - offset ≤ INT_MAX) :
    epochFromParts year month day hour minute second offset =
      .ok (daysSinceEpoch year month day * 86400 + (hour * 3600 + minute * 60 + second) - offset) := by
  have hyear := hdate.year_ge
  have hdays := hdate.day_le
  have hbounds := daysPerMonth_le (yearIsLeap year) month hdate.month_mem
  unfold TimeValid at htime
  unfold INT_MAX at hmax
  unfold epochFromParts
  rw [timePartsValid_iff.mpr htime, ok_bind, dayOfYear_ok hdate]
  rw [← epoch_formula hyear] at hmax ⊢
  generalize ((daysPerMonth (yearIsLeap year)).take (month - 1)).sum = days at hbounds hmax
  -- up to 2100 there are as many centuries as there are leap centuries
  have hsame : ((year : ℤ) - 1900 - 1) / 100 = ((year : ℤ) - 1900 + 299) / 400 := by omega
  simp (disch := omega) only [intAdd, intSub, intMul, intResult_ok, intDiv_of_nonneg, ok_bind]

end

end Epoch

/-! ## Time zones -/

theorem tzOffsetSeconds_nonneg {tzHour tzMinute : ℕ} (h : tzPartsValid tzHour tzMinute = .ok ())
    (hminute : tzMinute < 100) (hhour : tzHour < 100) :
    tzOffsetSeconds tzHour tzMinute = .ok (tzHour * 3600 + tzMinute * 60) := by
  have hpos : ¬ (tzHour : ℤ) < 0 := by omega
  unfold tzOffsetSeconds
  rw [h, ok_bind, if_neg hpos, if_neg hpos]
  simp (disch := omega) only [intAdd, intMul, intResult_ok, ok_bind, one_mul]

theorem tzOffsetSeconds_neg {tzHour tzMinute : ℕ} (h : tzPartsValid (-(tzHour : ℤ)) tzMinute = .ok ())
    (hminute : tzMinute < 100) (hhour : tzHour < 100) (hpos : 0 < tzHour) :
    tzOffsetSeconds (-(tzHour : ℤ)) tzMinute = .ok (-(tzHour * 3600 + tzMinute * 60)) := by
  have hneg : -(tzHour : ℤ) < 0 := by omega
  unfold tzOffsetSeconds
  rw [h, ok_bind, if_pos hneg, if_pos hneg]
  simp (disch := omega) only [intAdd, intMul, intResult_ok, ok_bind, neg_mul, one_mul, neg_neg]

/-! ## Reading a time -/

/-- A date and a time with a time zone. -/
structure ZonedTime where
  year : ℕ
  month : ℕ
  day : ℕ
  hour : ℕ
  minute : ℕ
  second : ℕ
  /-- the point or comma, and the digits behind it -/
  fraction : Option (Char × Str)
  minus : Bool
  tzHour : ℕ
  /-- the minute of the time zone, and whether a colon is in front of it -/
  tzMinute : Option (Bool × ℕ)
  date : DateValid year month day
  year_lt : year < 10000
  time_lt : hour < 100 ∧ minute < 100 ∧ second < 100
  tzHour_lt : tzHour < 100
  tzMinute_lt : ∀ colon minute, tzMinute = some (colon, minute) → minute < 100
  fraction_digits : ∀ point digits, fraction = some (point, digits) →
    (point = '.' ∨ point = ',') ∧ ∀ c ∈ digits, c.isDigit = true

namespace ZonedTime

variable (t : ZonedTime)

def signChar : Char := if t.minus then '-' else '+'

/-- The minute of the time zone, behind a colon or not. -/
def zoneMinute : Str :=
  match t.tzMinute with
  | none => []
  | some (true, minute) => ':' :: decimalDigits 2 minute
  | some (false, minute) => decimalDigits 2 minute

/-- The time zone behind the sign. -/
def zone : Str := decimalDigits 2 t.tzHour ++ t.zoneMinute

/-- What comes behind the seconds. -/
def tail : Str :=
  match t.fraction with
  | none => t.signChar :: t.zone
  | some (point, digits) => point :: (digits ++ t.signChar :: t.zone)

def text : Str :=
  decimalDigits 4 t.year ++ '-' :: (decimalDigits 2 t.month ++ '-' :: (decimalDigits 2 t.day ++ ' ' ::
    (decimalDigits 2 t.hour ++ ':' :: (decimalDigits 2 t.minute ++ ':' :: (decimalDigits 2 t.second
      ++ t.tail)))))

/-- The minute of the time zone. -/
def offsetMinute : ℕ := (t.tzMinute.map Prod.snd).getD 0

/-- The hour of the time zone with its sign. -/
def offsetHour : ℤ := t.tzHour * if t.minus then -1 else 1

/-- How far the time zone is ahead, in seconds. -/
def offset : ℤ := (if t.minus then -1 else 1) * (t.tzHour * 3600 + t.offsetMinute * 60)

/-- The number of seconds since the beginning of 1970. -/
def epoch : ℤ :=
  daysSinceEpoch t.year t.month t.day * 86400 + (t.hour * 3600 + t.minute * 60 + t.second) - t.offset

/-- The time or the time zone is rejected. -/
def Rejected : Prop :=
  (∃ e, timePartsValid t.hour t.minute t.second = .error e) ∨ ∃ e, tzPartsValid t.offsetHour t.offsetMinute = .error e

end ZonedTime

theorem cvtZNToTimePartLoop_decimalDigits (time : Str) (w : ℕ) : ∀ (n : ℕ) (result power : ℤ), n < 10 ^ w →
    cvtZNToTimePartLoop time (decimalDigits w n).reverse result power = .ok (result + n * power) := by
  induction w with
  | zero =>
    intro n result power hn
    have hzero : n = 0 := by omega
    rw [hzero, Nat.cast_zero, zero_mul, add_zero]
    rfl
  | succ w ih =>
    intro n result power hn
    have hdiv : n / 10 < 10 ^ w := by rwa [Nat.div_lt_iff_lt_mul (by decide), ← Nat.pow_succ]
    have hdigit : ∀ i < 10, (Nat.digitChar i).isDigit = true
        ∧ ((Nat.digitChar i).toNat : ℤ) - '0'.toNat = i := by decide
    have ⟨hisDigit, hvalue⟩ := hdigit (n % 10) (Nat.mod_lt _ (by decide))
    have hn' : (n : ℤ) = (n / 10 : ℕ) * 10 + (n % 10 : ℕ) := by omega
    rw [decimalDigits_succ, List.reverse_append]
    show cvtZNToTimePartLoop time (Nat.digitChar (n % 10) :: _) result power = _
    rw [cvtZNToTimePartLoop, hisDigit, hvalue]
    refine (ih _ _ _ hdiv).trans (congrArg Except.ok ?_)
    rw [hn']
    push_cast
    ring

theorem cvtZNToTimePart_decimalDigits (time : Str) {w n : ℕ} (hn : n < 10 ^ w) :
    cvtZNToTimePart time (decimalDigits w n) = .ok (n : ℤ) := by
  unfold cvtZNToTimePart
  rw [cvtZNToTimePartLoop_decimalDigits time w n 0 1 hn, zero_add, mul_one]

namespace ZonedTime

variable (t : ZonedTime)

theorem cvtTimeFraction_tail : cvtTimeFraction t.tail = t.signChar :: t.zone := by
  have hsign : t.signChar ≠ '.' ∧ t.signChar ≠ ',' ∧ t.signChar.isDigit = false := by
    unfold signChar
    cases t.minus <;> decide
  unfold tail
  cases hfraction : t.fraction with
  | none => exact if_neg (by simp [hsign.1, hsign.2.1])
  | some fraction =>
    have ⟨hpoint, hdigits⟩ := t.fraction_digits fraction.1 fraction.2 hfraction
    have hlength : (fraction.2 ++ t.signChar :: t.zone).length + 1 ≥ 2 := by
      rw [List.length_append, List.length_cons]
      omega
    refine (if_pos ⟨hpoint, hlength⟩).trans ?_
    rw [List.dropWhile_append_of_pos hdigits, List.dropWhile_cons_of_neg (by simp [hsign.2.2])]

theorem zoneMinute_tail : (if t.zoneMinute.head? = some ':' then t.zoneMinute.tail else t.zoneMinute)
    = match t.tzMinute with
      | none => []
      | some (_, minute) => decimalDigits 2 minute := by
  unfold zoneMinute
  match t.tzMinute with
  | none => rfl
  | some (true, minute) => rfl
  | some (false, minute) =>
    have hdigit : ∀ i < 10, some (Nat.digitChar i) ≠ some ':' := by decide
    have hhead : (decimalDigits 2 minute).head? ≠ some ':' := hdigit _ (Nat.mod_lt _ (by decide))
    exact if_neg hhead

theorem cvtTimeZone_zone (time : Str) :
    cvtTimeZone time t.signChar t.zone = .ok (t.offsetHour, (t.offsetMinute : ℤ)) := by
  have hsign : (if t.signChar = '-' then (-1 : ℤ) else 1) = if t.minus then -1 else 1 := by
    unfold signChar
    cases t.minus <;> rfl
  have hhour := @cvtZNToTimePart_decimalDigits time 2 t.tzHour t.tzHour_lt
  have hminute := t.tzMinute_lt
  have htake : t.zone.take 2 = decimalDigits 2 t.tzHour := rfl
  have hdrop : t.zone.drop 2 = t.zoneMinute := rfl
  unfold cvtTimeZone
  rw [htake, hhour, ok_bind, hsign, hdrop]
  dsimp only
  rw [zoneMinute_tail]
  unfold offsetHour offsetMinute
  match htz : t.tzMinute with
  | none => rfl
  | some (colon, minute) =>
    show (cvtZNToTimePart time (decimalDigits 2 minute) >>= fun offsetMinute => _) = _
    rw [@cvtZNToTimePart_decimalDigits time 2 minute (hminute _ _ htz)]
    rfl

/-- **What `cvtZToTime` computes** from the parts. -/
theorem cvtZToTime_text (mktime : Tm → ℤ) :
    cvtZToTime mktime t.text =
      (timePartsValid t.hour t.minute t.second >>= fun _ =>
        tzOffsetSeconds t.offsetHour t.offsetMinute >>= fun offset =>
          epochFromParts t.year t.month t.day t.hour t.minute t.second offset) := by
  have hlength : ¬ t.text.length < 19 := by
    unfold text
    simp only [List.length_append, List.length_cons, length_decimalDigits]
    omega
  have htwo : ∀ {n : ℕ}, n < 100 → cvtZNToTimePart t.text (decimalDigits 2 n) = .ok (n : ℤ) :=
    fun hn => cvtZNToTimePart_decimalDigits t.text hn
  have hmonth := Finset.mem_Icc.mp t.date.month_mem
  have hday := t.date.day_le.trans (daysPerMonth_le _ _ t.date.month_mem).1
  have hyear : strSubN t.text 0 4 = decimalDigits 4 t.year := rfl
  have hmonth' : strSubN t.text 5 2 = decimalDigits 2 t.month := rfl
  have hday' : strSubN t.text 8 2 = decimalDigits 2 t.day := rfl
  have hhour : strSubN t.text 11 2 = decimalDigits 2 t.hour := rfl
  have hminute : strSubN t.text 14 2 = decimalDigits 2 t.minute := rfl
  have hsecond : strSubN t.text 17 2 = decimalDigits 2 t.second := rfl
  have htail : t.text.drop 19 = t.tail := rfl
  unfold cvtZToTime
  rw [hyear, hmonth', hday', hhour, hminute, hsecond, htail, htwo (by omega), htwo (by omega),
    htwo t.time_lt.1, htwo t.time_lt.2.1, htwo t.time_lt.2.2,
    @cvtZNToTimePart_decimalDigits t.text 4 t.year t.year_lt, cvtTimeFraction_tail]
  refine (if_neg ?_).trans ?_
  · rintro (h | h | h | h | h | h)
    · exact hlength h
    all_goals exact h rfl
  · show (datePartsValid t.year t.month t.day >>= fun _ => _) = _
    have hsign : t.signChar = '+' ∨ t.signChar = '-' := by
      unfold signChar
      cases t.minus
      · exact Or.inl rfl
      · exact Or.inr rfl
    have hzone : t.zone.length + 1 ≥ 3 := by
      unfold zone
      rw [List.length_append, length_decimalDigits]
      omega
    rw [datePartsValid_ok t.date, ok_bind]
    refine congrArg (timePartsValid t.hour t.minute t.second >>= ·) (funext fun _ => ?_)
    refine (if_pos ⟨hsign, hzone⟩).trans ?_
    rw [cvtTimeZone_zone]
    rfl

/-- The sign of the time zone is lost. -/
def SignLost : Prop := t.minus = true ∧ t.tzHour = 0 ∧ t.offsetMinute ≠ 0

theorem offsetMinute_lt : t.offsetMinute < 100 := by
  have hminute := t.tzMinute_lt
  unfold offsetMinute
  match htz : t.tzMinute with
  | none => decide
  | some (colon, minute) => exact hminute colon minute htz

/-- What `tzOffsetSeconds` gives for a time zone that is not rejected. -/
theorem tzOffsetSeconds_offsetHour (h : tzPartsValid t.offsetHour t.offsetMinute = .ok ()) :
    ∃ offset, tzOffsetSeconds t.offsetHour t.offsetMinute = .ok offset ∧ -86400 ≤ offset
      ∧ offset ≤ 86400 ∧ (offset = t.offset ↔ ¬ t.SignLost) := by
  have hhour := t.tzHour_lt
  have hminute := t.offsetMinute_lt
  have hbound : -12 ≤ t.offsetHour ∧ t.offsetHour ≤ 14 := by
    unfold tzPartsValid at h
    split at h
    next h => omega
    next => cases h
  unfold SignLost offset
  unfold offsetHour at h hbound ⊢
  generalize t.minus = minus at h hbound ⊢
  cases minus with
  | false =>
    rw [if_neg Bool.false_ne_true, mul_one] at h hbound
    rw [if_neg Bool.false_ne_true, mul_one]
    refine ⟨_, tzOffsetSeconds_nonneg h hminute hhour, by omega, by omega, ?_⟩
    exact iff_of_true (one_mul _).symm fun h => Bool.false_ne_true h.1
  | true =>
    rw [if_pos rfl, mul_neg, mul_one] at h hbound
    rw [if_pos rfl, mul_neg, mul_one]
    by_cases hzero : t.tzHour = 0
    · have hneg : -(t.tzHour : ℤ) = t.tzHour := by omega
      rw [hneg] at h ⊢
      refine ⟨_, tzOffsetSeconds_nonneg h hminute hhour, by omega, by omega, ?_⟩
      rw [eq_self_iff_true, true_and]
      omega
    · refine ⟨_, tzOffsetSeconds_neg h hminute hhour (Nat.pos_of_ne_zero hzero), by omega, by omega, ?_⟩
      omega

end ZonedTime

theorem timePartsValid_cases (hour minute second : ℤ) :
    timePartsValid hour minute second = .ok () ∨ ∃ e, timePartsValid hour minute second = .error (.error e) := by
  unfold timePartsValid
  split
  · exact Or.inl rfl
  · exact Or.inr ⟨_, rfl⟩

theorem tzPartsValid_cases (tzHour tzMinute : ℤ) :
    tzPartsValid tzHour tzMinute = .ok () ∨ ∃ e, tzPartsValid tzHour tzMinute = .error (.error e) := by
  unfold tzPartsValid
  split
  · exact Or.inl rfl
  · exact Or.inr ⟨_, rfl⟩

/-- **A time with a time zone is read exactly**, or rejected, when the number of
seconds is an `int` and the sign of the time zone is not lost. -/
theorem cvtZToTime_exact (mktime : Tm → ℤ) (t : ZonedTime) :
    ((∃ e, cvtZToTime mktime t.text = .error (.error e)) ∨ cvtZToTime mktime t.text = .ok t.epoch)
      ↔ t.Rejected ∨ (t.epoch ≤ INT_MAX ∧ ¬ t.SignLost) := by
  rw [t.cvtZToTime_text]
  rcases timePartsValid_cases t.hour t.minute t.second with htime | ⟨e, htime⟩
  · rcases tzPartsValid_cases t.offsetHour t.offsetMinute with htz | ⟨e, htz⟩
    · have ⟨offset, hoffset, hmin, hmax, hlost⟩ := t.tzOffsetSeconds_offsetHour htz
      have hrejected : ¬ t.Rejected := by
        rintro (⟨e, h⟩ | ⟨e, h⟩)
        · cases htime.symm.trans h
        · cases htz.symm.trans h
      rw [htime, ok_bind, hoffset, ok_bind, or_iff_right hrejected]
      have htime := timePartsValid_iff.mp htime
      constructor
      · intro h
        rcases @epochFromParts_exact _ _ _ _ _ _ offset t.date htime with ⟨heq, hle⟩ | heq
        · rw [heq] at h
          rcases h with ⟨e, h⟩ | h
          · cases h
          · have hsame : offset = t.offset := by
              have hepoch := Except.ok.inj h
              unfold ZonedTime.epoch at hepoch
              omega
            rw [hsame] at hle
            exact ⟨hle, hlost.mp hsame⟩
        · rw [heq] at h
          rcases h with ⟨e, h⟩ | h
          · cases h
          · cases h
      · rintro ⟨hle, hnot⟩
        rw [hlost.mpr hnot] at hmin hmax ⊢
        exact Or.inr (epochFromParts_ok t.date htime ⟨hmin, hmax⟩ hle)
    · rw [htime, ok_bind, tzOffsetSeconds, htz]
      exact iff_of_true (Or.inl ⟨e, rfl⟩) (Or.inl (Or.inr ⟨_, htz⟩))
  · rw [htime]
    exact iff_of_true (Or.inl ⟨e, rfl⟩) (Or.inl (Or.inl ⟨_, htime⟩))

def zonedTimeLate : ZonedTime where
  year := 2039
  month := 1
  day := 1
  hour := 0
  minute := 0
  second := 0
  fraction := none
  minus := false
  tzHour := 0
  tzMinute := none
  date := ⟨by decide, by decide, by decide, by decide⟩
  year_lt := by decide
  time_lt := by decide
  tzHour_lt := by decide
  tzMinute_lt := nofun
  fraction_digits := nofun

/-- A time half an hour behind. -/
def zonedTimeBehind : ZonedTime where
  year := 2020
  month := 1
  day := 1
  hour := 0
  minute := 0
  second := 0
  fraction := none
  minus := true
  tzHour := 0
  tzMinute := some (true, 30)
  date := ⟨by decide, by decide, by decide, by decide⟩
  year_lt := by decide
  time_lt := by decide
  tzHour_lt := by decide
  tzMinute_lt := fun colon minute h => by cases h; decide
  fraction_digits := nofun

/-- The number of seconds overflows in 2039, and half an hour behind is read as
half an hour ahead. -/
theorem cvtZToTime_late_behind :
    zonedTimeLate.text = "2039-01-01 00:00:00+00".toList
      ∧ cvtZToTime (fun _ => 0) zonedTimeLate.text = .error .overflow
      ∧ zonedTimeBehind.text = "2020-01-01 00:00:00-00:30".toList
      ∧ cvtZToTime (fun _ => 0) zonedTimeBehind.text = .ok 1577835000
      ∧ zonedTimeBehind.epoch = 1577838600 := by
  refine ⟨by decide +kernel, by decide +kernel, by decide +kernel, by decide +kernel, ?_⟩
  decide +kernel

end PgxBackup
