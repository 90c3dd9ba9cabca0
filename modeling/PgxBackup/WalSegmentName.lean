import Mathlib.Data.List.Range
import Mathlib.Data.List.TakeWhile
import PgxBackup.ArchiveGetAsync
import PgxBackup.Convert
import PgxBackup.FixedWidth

/-!
# Names of WAL segments

The name of a WAL segment is made of a timeline and of the two halves of an
LSN, each with eight hexadecimal digits. Segments are counted in three places:
`pgLsnToWalSegment` divides, `pgLsnRangeToWalSegmentList` carries from one half
to the other, and `walSegmentNext` does so on the name.

All three count the same: the segments of a timeline are numbered by their LSN
divided by their size, and the names are in the order of these numbers.
-/

namespace PgxBackup

open List

/-- A digit of `%X`. -/
def hexDigit (i : ℕ) : Char := (Nat.digitChar i).toUpper

/-- `%08X` of a `uint32_t`. -/
def hex8 (n : ℕ) : Str := FixedWidth.digits hexDigit 16 8 n

def walSegmentFmt (timeline major minor : ℕ) : Str := hex8 timeline ++ hex8 major ++ hex8 minor

/-- `pgLsnToWalSegment`. -/
def pgLsnToWalSegment (timeline lsn walSegmentSize : ℕ) : Str :=
  walSegmentFmt timeline (lsn >>> 32 % 2 ^ 32) ((lsn &&& 0xFFFFFFFF) / walSegmentSize)

/-- The loop of `pgLsnRangeToWalSegmentList`, for at most as many rounds as there
is fuel. -/
def pgLsnRangeLoop (timeline stopMajor stopMinor minorPerMajor : ℕ) : ℕ → ℕ → ℕ → Option (List Str)
  | 0, _, _ => none
  | fuel + 1, startMajor, startMinor =>
    if startMajor = stopMajor ∧ startMinor = stopMinor then some []
    else
      let startMinor := (startMinor + 1) % 2 ^ 32
      let (startMajor, startMinor) :=
        if startMinor > minorPerMajor then ((startMajor + 1) % 2 ^ 32, 0) else (startMajor, startMinor)
      (pgLsnRangeLoop timeline stopMajor stopMinor minorPerMajor fuel startMajor startMinor).map
        (walSegmentFmt timeline startMajor startMinor :: ·)

/-- `pgLsnRangeToWalSegmentList`. -/
def pgLsnRangeToWalSegmentList (fuel timeline lsnStart lsnStop walSegmentSize : ℕ) :
    Option (List Str) :=
  let startMajor := lsnStart >>> 32 % 2 ^ 32
  let startMinor := (lsnStart &&& 0xFFFFFFFF) / walSegmentSize
  let stopMajor := lsnStop >>> 32 % 2 ^ 32
  let stopMinor := (lsnStop &&& 0xFFFFFFFF) / walSegmentSize
  let minorPerMajor := 0xFFFFFFFF / walSegmentSize
  (pgLsnRangeLoop timeline stopMajor stopMinor minorPerMajor fuel startMajor startMinor).map
    (walSegmentFmt timeline startMajor startMinor :: ·)

def isHexDigit (c : Char) : Bool :=
  c.isDigit || ('A' ≤ c && c ≤ 'F') || ('a' ≤ c && c ≤ 'f')

def hexValue (c : Char) : ℕ := if c.isDigit then c.toNat - 48 else c.toUpper.toNat - 55

/-- `strtol` in base 16, of a string that does not start with blanks, a sign or
a prefix. -/
def strtolHex (s : Str) : ℕ := FixedWidth.ofDigits hexValue 16 (s.takeWhile isHexDigit)

/-- `pgTimelineFromWalSegment`. -/
def pgTimelineFromWalSegment (walSegment : Str) : Except Error ℕ :=
  let timeline := strSubN walSegment 0 8
  if timeline ≠ [] ∧ timeline.all isHexDigit then .ok (strtolHex timeline)
  else .error (cvtError 16 timeline "unsigned int")

/-- `walSegmentNext`, on the name. -/
def walSegmentNextStr (walSegment : Str) (walSegmentSize : ℕ) : Except Error Str := do
  let timeline ← pgTimelineFromWalSegment walSegment
  let major := strtolHex (strSubN walSegment 8 8) % 2 ^ 32
  let minor := strtolHex (strSubN walSegment 16 8) % 2 ^ 32
  -- increment minor and adjust major dir on overflow
  let minor := (minor + 1) % 2 ^ 32
  if minor > (2 ^ 32 - 1) / walSegmentSize then
    .ok (walSegmentFmt timeline ((major + 1) % 2 ^ 32) 0)
  else .ok (walSegmentFmt timeline major minor)

def walSegmentRangeLoop (walSegmentSize : ℕ) : ℕ → Str → Except Error (List Str)
  | 0, _ => .ok []
  | range + 1, current => do
    let next ← walSegmentNextStr current walSegmentSize
    let list ← walSegmentRangeLoop walSegmentSize range next
    .ok (next :: list)

/-- `walSegmentRange`, on names. -/
def walSegmentRangeStr (walSegmentBegin : Str) (walSegmentSize range : ℕ) :
    Except Error (List Str) := do
  let list ← walSegmentRangeLoop walSegmentSize (range - 1) walSegmentBegin
  .ok (walSegmentBegin :: list)

/-! ## Digits -/

theorem hexDigit_lt : ∀ i < 16, ∀ j < 16, hexDigit i < hexDigit j ↔ i < j := by decide +kernel

theorem hexValue_hexDigit : ∀ i < 16, hexValue (hexDigit i) = i := by decide +kernel

theorem isHexDigit_hexDigit : ∀ i < 16, isHexDigit (hexDigit i) = true := by decide +kernel

@[simp] theorem length_hex8 (n : ℕ) : (hex8 n).length = 8 := FixedWidth.length_digits _ _ _ _

theorem isHexDigit_of_mem_hex8 {n : ℕ} {c : Char} (hc : c ∈ hex8 n) : isHexDigit c = true := by
  have ⟨i, hi, heq⟩ := FixedWidth.mem_digits hexDigit 16 (by decide) hc
  rw [heq]
  exact isHexDigit_hexDigit i hi

theorem strtolHex_hex8 {n : ℕ} (hn : n < 2 ^ 32) : strtolHex (hex8 n) = n := by
  have htake : (hex8 n).takeWhile isHexDigit = hex8 n :=
    takeWhile_eq_self_iff.mpr fun c hc => isHexDigit_of_mem_hex8 hc
  unfold strtolHex
  rw [htake, hex8, FixedWidth.ofDigits_digits hexValue_hexDigit (by decide)]
  exact Nat.mod_eq_of_lt hn

section Name

variable {timeline major minor : ℕ}

/-- The three numbers of a name, and what is read of them. -/
theorem pgTimelineFromWalSegment_fmt (htimeline : timeline < 2 ^ 32) :
    pgTimelineFromWalSegment (walSegmentFmt timeline major minor) = .ok timeline := by
  have hsub : strSubN (walSegmentFmt timeline major minor) 0 8 = hex8 timeline := by
    show ((hex8 timeline ++ hex8 major) ++ hex8 minor).take 8 = _
    rw [append_assoc, take_left' (length_hex8 timeline)]
  have hne : hex8 timeline ≠ [] := ne_nil_of_length_pos (by rw [length_hex8]; decide)
  have hall : (hex8 timeline).all isHexDigit = true :=
    all_eq_true.mpr fun c hc => isHexDigit_of_mem_hex8 hc
  unfold pgTimelineFromWalSegment
  rw [hsub]
  exact (if_pos ⟨hne, hall⟩).trans (congrArg _ (strtolHex_hex8 htimeline))

theorem strSubN_fmt_major : strSubN (walSegmentFmt timeline major minor) 8 8 = hex8 major := by
  show (((hex8 timeline ++ hex8 major) ++ hex8 minor).drop 8).take 8 = _
  rw [append_assoc, drop_left' (length_hex8 timeline), take_left' (length_hex8 major)]

theorem strSubN_fmt_minor : strSubN (walSegmentFmt timeline major minor) 16 8 = hex8 minor := by
  have hlength : (hex8 timeline ++ hex8 major).length = 16 := by simp
  show (((hex8 timeline ++ hex8 major) ++ hex8 minor).drop 16).take 8 = _
  rw [drop_left' hlength, take_of_length_le (length_hex8 minor).le]

theorem walSegmentNextStr_fmt (htimeline : timeline < 2 ^ 32) (hmajor : major < 2 ^ 32)
    (hminor : minor < 2 ^ 32) (walSegmentSize : ℕ) :
    walSegmentNextStr (walSegmentFmt timeline major minor) walSegmentSize =
      .ok (if (minor + 1) % 2 ^ 32 > (2 ^ 32 - 1) / walSegmentSize then
          walSegmentFmt timeline ((major + 1) % 2 ^ 32) 0
        else walSegmentFmt timeline major ((minor + 1) % 2 ^ 32)) := by
  unfold walSegmentNextStr
  rw [pgTimelineFromWalSegment_fmt htimeline, strSubN_fmt_major, strSubN_fmt_minor,
    strtolHex_hex8 hmajor, strtolHex_hex8 hminor, Nat.mod_eq_of_lt hmajor, Nat.mod_eq_of_lt hminor]
  exact (apply_ite Except.ok _ _ _).symm

theorem walSegmentFmt_eq_digits (hmajor : major < 2 ^ 32) (hminor : minor < 2 ^ 32) :
    walSegmentFmt timeline major minor =
      FixedWidth.digits hexDigit 16 24 (timeline * 2 ^ 64 + (major * 2 ^ 32 + minor)) := by
  have hlow : hex8 major ++ hex8 minor = FixedWidth.digits hexDigit 16 16 (major * 2 ^ 32 + minor) :=
    (FixedWidth.digits_append hexDigit 16 8 8 major hminor).symm
  unfold walSegmentFmt
  rw [append_assoc, hlow]
  refine (FixedWidth.digits_append hexDigit 16 8 16 timeline ?_).symm
  omega

/-- **The order of names** is the order of the three numbers. -/
theorem walSegmentFmt_lt_iff {major' minor' : ℕ} (htimeline : timeline < 2 ^ 32)
    (hmajor : major < 2 ^ 32) (hminor : minor < 2 ^ 32) (hmajor' : major' < 2 ^ 32)
    (hminor' : minor' < 2 ^ 32) :
    walSegmentFmt timeline major minor < walSegmentFmt timeline major' minor' ↔
      major * 2 ^ 32 + minor < major' * 2 ^ 32 + minor' := by
  rw [walSegmentFmt_eq_digits hmajor hminor, walSegmentFmt_eq_digits hmajor' hminor',
    FixedWidth.digits_lt_iff hexDigit_lt (by omega) (by omega)]
  omega

end Name

/-! ## Numbered segments -/

/-- The segment with a number, when there are `perMajor` segments to a major. -/
def walSegmentNumbered (timeline perMajor number : ℕ) : Str :=
  walSegmentFmt timeline (number / perMajor) (number % perMajor)

section

variable {walSegmentSize perMajor : ℕ} (hsize : walSegmentSize * perMajor = 2 ^ 32)
include hsize

theorem minorPerMajor_eq : (2 ^ 32 - 1) / walSegmentSize = perMajor - 1 := by
  have hlt : 0 < walSegmentSize * perMajor := by rw [hsize]; decide
  have hdiv := Nat.mul_sub_div 0 walSegmentSize perMajor hlt
  rw [hsize, Nat.zero_div] at hdiv
  exact hdiv

theorem lsn_major {lsn : ℕ} (hlsn : lsn < 2 ^ 64) :
    lsn >>> 32 % 2 ^ 32 = lsn / walSegmentSize / perMajor := by
  rw [Nat.div_div_eq_div_mul, hsize, Nat.shiftRight_eq_div_pow]
  exact Nat.mod_eq_of_lt (by omega)

theorem lsn_minor (lsn : ℕ) :
    (lsn &&& 0xFFFFFFFF) / walSegmentSize = lsn / walSegmentSize % perMajor := by
  rw [← Nat.mod_mul_right_div_self, hsize]
  exact congrArg (· / walSegmentSize) (Nat.and_two_pow_sub_one_eq_mod lsn 32)

/-- `pgLsnToWalSegment` numbers the segments by the LSN divided by the size. -/
theorem pgLsnToWalSegment_eq (timeline : ℕ) {lsn : ℕ} (hlsn : lsn < 2 ^ 64) :
    pgLsnToWalSegment timeline lsn walSegmentSize =
      walSegmentNumbered timeline perMajor (lsn / walSegmentSize) := by
  unfold pgLsnToWalSegment walSegmentNumbered
  rw [lsn_major hsize hlsn, lsn_minor hsize]

end

section Numbered

variable {walSegmentSize perMajor : ℕ}

/-- **The carry** from the minor to the major, which the number does not have. -/
theorem walSegment_carry (hpos : 0 < perMajor) (hlt : perMajor < 2 ^ 32) {number : ℕ}
    (hnumber : number + 1 < 2 ^ 32 * perMajor) :
    (if (number % perMajor + 1) % 2 ^ 32 > perMajor - 1 then
        ((number / perMajor + 1) % 2 ^ 32, 0)
      else (number / perMajor, (number % perMajor + 1) % 2 ^ 32))
      = ((number + 1) / perMajor, (number + 1) % perMajor) := by
  have ⟨q, r, hr, heq⟩ : ∃ q r, r < perMajor ∧ number = perMajor * q + r :=
    ⟨number / perMajor, number % perMajor, Nat.mod_lt _ hpos, (Nat.div_add_mod _ _).symm⟩
  have hdiv : number / perMajor = q := by
    rw [heq, Nat.mul_add_div hpos, Nat.div_eq_of_lt hr, Nat.add_zero]
  have hmod : number % perMajor = r := by rw [heq, Nat.mul_add_mod, Nat.mod_eq_of_lt hr]
  have hwrap : (r + 1) % 2 ^ 32 = r + 1 := Nat.mod_eq_of_lt (by omega)
  rw [hdiv, hmod, hwrap]
  by_cases hlast : r + 1 = perMajor
  · have hnext : number + 1 = perMajor * (q + 1) := by rw [heq, Nat.mul_succ, ← hlast, Nat.add_assoc]
    have hmajor : q + 1 < 2 ^ 32 := by
      refine Nat.lt_of_mul_lt_mul_left (a := perMajor) ?_
      rw [← hnext, Nat.mul_comm perMajor]
      exact hnumber
    rw [if_pos (by omega), hnext, Nat.mul_div_cancel_left _ hpos, Nat.mul_mod_right,
      Nat.mod_eq_of_lt hmajor]
  · have hnext : r + 1 < perMajor := by omega
    rw [if_neg (by omega), heq, Nat.add_assoc, Nat.mul_add_div hpos, Nat.mul_add_mod,
      Nat.div_eq_of_lt hnext, Nat.mod_eq_of_lt hnext]
    rfl

theorem walSegment_number_eq {number number' : ℕ} :
    number / perMajor = number' / perMajor ∧ number % perMajor = number' % perMajor
      ↔ number = number' := by
  constructor
  · rintro ⟨hdiv, hmod⟩
    rw [← Nat.div_add_mod number perMajor, hdiv, hmod, Nat.div_add_mod]
  · rintro rfl
    exact ⟨rfl, rfl⟩

/-- **The loop counts** to the number it stops at. -/
theorem pgLsnRangeLoop_numbered (hpos : 0 < perMajor) (hlt : perMajor < 2 ^ 32) (timeline stop : ℕ)
    (hstop : stop < 2 ^ 32 * perMajor) {fuel : ℕ} :
    ∀ {number : ℕ}, number ≤ stop → stop - number < fuel →
      pgLsnRangeLoop timeline (stop / perMajor) (stop % perMajor) (perMajor - 1) fuel
          (number / perMajor) (number % perMajor) =
        some ((range' (number + 1) (stop - number)).map (walSegmentNumbered timeline perMajor)) := by
  induction fuel with
  | zero => exact fun _ hfuel => absurd hfuel (Nat.not_lt_zero _)
  | succ fuel ih =>
    intro number hle hfuel
    unfold pgLsnRangeLoop
    by_cases heq : number = stop
    · rw [if_pos (walSegment_number_eq.mpr heq), heq, Nat.sub_self]
      rfl
    · have hnext : stop - number = (stop - (number + 1)) + 1 := by omega
      rw [if_neg (fun h => heq (walSegment_number_eq.mp h))]
      dsimp only
      rw [walSegment_carry hpos hlt (by omega), ih (by omega) (by omega), hnext]
      rfl

section

variable {timeline : ℕ} (hsize : walSegmentSize * perMajor = 2 ^ 32) (hpos : 0 < perMajor)
  (hlt : perMajor < 2 ^ 32) (htimeline : timeline < 2 ^ 32)
include hsize hpos hlt htimeline

/-- `walSegmentNext` counts. -/
theorem walSegmentNextStr_numbered {number : ℕ} (hnumber : number + 1 < 2 ^ 32 * perMajor) :
    walSegmentNextStr (walSegmentNumbered timeline perMajor number) walSegmentSize =
      .ok (walSegmentNumbered timeline perMajor (number + 1)) := by
  have hmajor : number / perMajor < 2 ^ 32 := Nat.div_lt_of_lt_mul (by rw [Nat.mul_comm]; omega)
  have hminor : number % perMajor < 2 ^ 32 := (Nat.mod_lt _ hpos).trans hlt
  have hcarry := walSegment_carry hpos hlt hnumber
  unfold walSegmentNumbered
  rw [walSegmentNextStr_fmt htimeline hmajor hminor, minorPerMajor_eq hsize]
  refine congrArg Except.ok ?_
  split
  next h =>
    rw [if_pos h, Prod.mk.injEq] at hcarry
    rw [← hcarry.1, ← hcarry.2]
  next h =>
    rw [if_neg h, Prod.mk.injEq] at hcarry
    rw [← hcarry.1, ← hcarry.2]

/-- `walSegmentRange` counts. -/
theorem walSegmentRangeLoop_numbered {range : ℕ} :
    ∀ {number : ℕ}, number + range < 2 ^ 32 * perMajor →
      walSegmentRangeLoop walSegmentSize range (walSegmentNumbered timeline perMajor number) =
        .ok ((range' (number + 1) range).map (walSegmentNumbered timeline perMajor)) := by
  induction range with
  | zero => exact fun _ => rfl
  | succ range ih =>
    intro number hnumber
    unfold walSegmentRangeLoop
    rw [walSegmentNextStr_numbered hsize hpos hlt htimeline (by omega)]
    show (walSegmentRangeLoop _ _ _ >>= fun list => _) = _
    rw [ih (by omega)]
    rfl

end

theorem walSegmentNumbered_lt_iff (hpos : 0 < perMajor) (hlt : perMajor < 2 ^ 32) {timeline : ℕ}
    (htimeline : timeline < 2 ^ 32) {number number' : ℕ} (hnumber : number < 2 ^ 32 * perMajor)
    (hnumber' : number' < 2 ^ 32 * perMajor) :
    walSegmentNumbered timeline perMajor number < walSegmentNumbered timeline perMajor number' ↔
      number < number' := by
  have hbound : ∀ {n : ℕ}, n < 2 ^ 32 * perMajor → n / perMajor < 2 ^ 32 ∧ n % perMajor < 2 ^ 32 :=
    fun h => ⟨Nat.div_lt_of_lt_mul (by rw [Nat.mul_comm]; exact h), (Nat.mod_lt _ hpos).trans hlt⟩
  have h := hbound hnumber
  have h' := hbound hnumber'
  rw [walSegmentNumbered, walSegmentNumbered, walSegmentFmt_lt_iff htimeline h.1 h.2 h'.1 h'.2]
  -- a smaller quotient makes both sides true, the same quotient leaves the remainders
  have hquot : ∀ {n n' : ℕ}, n / perMajor < n' / perMajor →
      n < n' ∧ n / perMajor * 2 ^ 32 + n % perMajor < n' / perMajor * 2 ^ 32 + n' % perMajor := by
    intro n n' hq
    have hmod := Nat.mod_lt n hpos
    exact ⟨Nat.lt_of_div_lt_div hq, by omega⟩
  rcases Nat.lt_trichotomy (number / perMajor) (number' / perMajor) with hq | hq | hq
  · exact ⟨fun _ => (hquot hq).1, fun _ => (hquot hq).2⟩
  · have hnum := Nat.div_add_mod number perMajor
    have hnum' := Nat.div_add_mod number' perMajor
    rw [hq] at hnum ⊢
    omega
  · exact ⟨fun hlt => absurd (hquot hq).2 hlt.not_gt, fun hlt => absurd (hquot hq).1 hlt.not_gt⟩

section

variable (hsize : walSegmentSize * perMajor = 2 ^ 32)
include hsize

theorem lsn_number_lt {lsn : ℕ} (hlsn : lsn < 2 ^ 64) :
    lsn / walSegmentSize < 2 ^ 32 * perMajor := by
  refine Nat.div_lt_of_lt_mul ?_
  rw [Nat.mul_left_comm, hsize]
  exact hlsn

/-- The name of a numbered segment, by the LSN where it starts. -/
theorem pgLsnToWalSegment_mul (timeline : ℕ) {number : ℕ}
    (hnumber : number * walSegmentSize < 2 ^ 64) :
    pgLsnToWalSegment timeline (number * walSegmentSize) walSegmentSize =
      walSegmentNumbered timeline perMajor number := by
  have hpos : 0 < walSegmentSize := Nat.pos_of_mul_pos_right (by rw [hsize]; decide)
  rw [pgLsnToWalSegment_eq hsize timeline hnumber, Nat.mul_div_cancel _ hpos]

/-- **A range of LSNs** is the segments with the numbers from one to the other. -/
theorem pgLsnRangeToWalSegmentList_numbered (hpos : 0 < perMajor) (hlt : perMajor < 2 ^ 32)
    (timeline : ℕ) {lsnStart lsnStop fuel : ℕ} (hle : lsnStart ≤ lsnStop) (hstop : lsnStop < 2 ^ 64)
    (hfuel : lsnStop / walSegmentSize - lsnStart / walSegmentSize < fuel) :
    pgLsnRangeToWalSegmentList fuel timeline lsnStart lsnStop walSegmentSize =
      some ((range' (lsnStart / walSegmentSize)
          (lsnStop / walSegmentSize + 1 - lsnStart / walSegmentSize)).map
        (walSegmentNumbered timeline perMajor)) := by
  have hnumber : lsnStart / walSegmentSize ≤ lsnStop / walSegmentSize := Nat.div_le_div_right hle
  have hcount : lsnStop / walSegmentSize + 1 - lsnStart / walSegmentSize
      = (lsnStop / walSegmentSize - lsnStart / walSegmentSize) + 1 := by omega
  unfold pgLsnRangeToWalSegmentList
  dsimp only
  rw [lsn_major hsize hstop, lsn_major hsize (hle.trans_lt hstop), lsn_minor hsize, lsn_minor hsize,
    show 0xFFFFFFFF / walSegmentSize = perMajor - 1 from minorPerMajor_eq hsize,
    pgLsnRangeLoop_numbered hpos hlt timeline _ (lsn_number_lt hsize hstop) hnumber hfuel, hcount]
  rfl

end

end Numbered

theorem isValidWalSegSize_perMajor {walSegmentSize : ℕ}
    (h : isValidWalSegSize walSegmentSize = true) :
    ∃ perMajor, walSegmentSize * perMajor = 2 ^ 32 ∧ 0 < perMajor ∧ perMajor < 2 ^ 32 := by
  simp only [isValidWalSegSize, Bool.and_eq_true, decide_eq_true_eq] at h
  have ⟨⟨hand, hlow⟩, hhigh⟩ := h
  have ⟨k, hk⟩ := (Nat.and_sub_one_eq_zero_iff_isPowerOfTwo (by omega)).mp hand
  have hk32 : k ≤ 30 := by
    rw [hk] at hhigh
    exact (Nat.pow_le_pow_iff_right (by decide)).mp hhigh
  have hk0 : 0 < k := by
    rw [hk] at hlow
    refine Nat.pos_of_ne_zero fun hzero => ?_
    rw [hzero] at hlow
    exact absurd hlow (by decide)
  refine ⟨2 ^ (32 - k), ?_, Nat.pow_pos (by decide), ?_⟩
  · rw [hk, ← Nat.pow_add]
    congr 1
    omega
  · exact Nat.pow_lt_pow_right (by decide) (by omega)

/-- **Names of WAL segments follow the arithmetic of LSNs.** The range of two
LSNs ends and has the name of every number between them, `walSegmentNext` goes
from number to number, so that a range counted on names is a range of LSNs, and
names are in the order of LSNs of different segments. -/
theorem pgLsnToWalSegment_arithmetic {walSegmentSize timeline lsnStart lsnStop : ℕ}
    (hsize : isValidWalSegSize walSegmentSize = true) (htimeline : timeline < 2 ^ 32)
    (hle : lsnStart ≤ lsnStop) (hstop : lsnStop < 2 ^ 64) :
    (∃ enough, ∀ fuel ≥ enough,
      pgLsnRangeToWalSegmentList fuel timeline lsnStart lsnStop walSegmentSize =
        some ((range' (lsnStart / walSegmentSize)
            (lsnStop / walSegmentSize + 1 - lsnStart / walSegmentSize)).map
          fun k => pgLsnToWalSegment timeline (k * walSegmentSize) walSegmentSize))
    ∧ (∀ k, (k + 1) * walSegmentSize < 2 ^ 64 →
      walSegmentNextStr (pgLsnToWalSegment timeline (k * walSegmentSize) walSegmentSize) walSegmentSize
        = .ok (pgLsnToWalSegment timeline ((k + 1) * walSegmentSize) walSegmentSize))
    ∧ (∀ range > 0, lsnStart + (range - 1) * walSegmentSize < 2 ^ 64 →
      ∃ list, walSegmentRangeStr (pgLsnToWalSegment timeline lsnStart walSegmentSize) walSegmentSize range
          = .ok list
        ∧ ∃ enough, ∀ fuel ≥ enough, pgLsnRangeToWalSegmentList fuel timeline lsnStart
          (lsnStart + (range - 1) * walSegmentSize) walSegmentSize = some list)
    ∧ ∀ lsn lsn', lsn < 2 ^ 64 → lsn' < 2 ^ 64 →
      (lsn < lsn' ∧ lsn / walSegmentSize ≠ lsn' / walSegmentSize ↔
        pgLsnToWalSegment timeline lsn walSegmentSize < pgLsnToWalSegment timeline lsn' walSegmentSize) := by
  have ⟨perMajor, hmul, hpos, hlt⟩ := isValidWalSegSize_perMajor hsize
  have hwal : 0 < walSegmentSize := Nat.pos_of_mul_pos_right (by rw [hmul]; decide)
  refine ⟨⟨lsnStop / walSegmentSize - lsnStart / walSegmentSize + 1, fun fuel hfuel => ?_⟩, ?_, ?_, ?_⟩
  · rw [pgLsnRangeToWalSegmentList_numbered hmul hpos hlt timeline hle hstop hfuel]
    refine congrArg some (map_congr_left fun k hk => ?_)
    have hkstop : k ≤ lsnStop / walSegmentSize := by
      have := mem_range'_1.mp hk
      omega
    refine (pgLsnToWalSegment_mul hmul timeline ?_).symm
    exact ((Nat.le_div_iff_mul_le hwal).mp hkstop).trans_lt hstop
  · intro k hk
    have hk' : k * walSegmentSize < 2 ^ 64 := (Nat.mul_le_mul_right _ (Nat.le_succ k)).trans_lt hk
    have hnumber : k + 1 < 2 ^ 32 * perMajor := by
      have := lsn_number_lt hmul hk
      rwa [Nat.mul_div_cancel _ hwal] at this
    rw [pgLsnToWalSegment_mul hmul timeline hk', pgLsnToWalSegment_mul hmul timeline hk]
    exact walSegmentNextStr_numbered hmul hpos hlt htimeline hnumber
  · intro range hrange hlast
    have hlast' : (lsnStart + (range - 1) * walSegmentSize) / walSegmentSize
        = lsnStart / walSegmentSize + (range - 1) := Nat.add_mul_div_right _ _ hwal
    have hnumber := lsn_number_lt hmul hlast
    rw [hlast'] at hnumber
    refine ⟨(range' (lsnStart / walSegmentSize) range).map (walSegmentNumbered timeline perMajor),
      ?_, range, fun fuel hfuel => ?_⟩
    · unfold walSegmentRangeStr
      rw [pgLsnToWalSegment_eq hmul timeline (hle.trans_lt hstop),
        walSegmentRangeLoop_numbered hmul hpos hlt htimeline hnumber]
      obtain ⟨n, rfl⟩ := Nat.exists_eq_succ_of_ne_zero hrange.ne'
      rfl
    · have hcount : lsnStart / walSegmentSize + (range - 1) + 1 - lsnStart / walSegmentSize = range := by
        omega
      rw [pgLsnRangeToWalSegmentList_numbered hmul hpos hlt timeline (Nat.le_add_right _ _) hlast
        (by rw [hlast']; omega), hlast', hcount]
  · intro lsn lsn' hlsn hlsn'
    rw [pgLsnToWalSegment_eq hmul timeline hlsn, pgLsnToWalSegment_eq hmul timeline hlsn',
      walSegmentNumbered_lt_iff hpos hlt htimeline (lsn_number_lt hmul hlsn) (lsn_number_lt hmul hlsn')]
    constructor
    · rintro ⟨hlt, hne⟩
      exact lt_of_le_of_ne (Nat.div_le_div_right hlt.le) hne
    · intro hdiv
      exact ⟨Nat.lt_of_div_lt_div hdiv, hdiv.ne⟩

/-- Across the end of a log file of the largest segments. -/
theorem pgLsnToWalSegment_arithmetic_carry :
    walSegmentNextStr (pgLsnToWalSegment 1 (3 * 2 ^ 30) (2 ^ 30)) (2 ^ 30)
      = .ok (pgLsnToWalSegment 1 (4 * 2 ^ 30) (2 ^ 30)) :=
  (@pgLsnToWalSegment_arithmetic (2 ^ 30) 1 0 0 (by decide) (by decide) le_rfl (by decide)).2.1 3
    (by decide)

end PgxBackup
