import Mathlib.Tactic.Ring
import PgxBackup.BitDigits
import PgxBackup.Chunks
import PgxBackup.Encode

/-!
# Encoded text is decoded to what it was made from

A text is made of groups of characters, one for each group of bytes, and both
directions go group by group. A text that can be decoded is one whose length
is a multiple of the group size and in which no character is rejected. What is
left is what the functions cannot do: read the table for a character without a
place in it, find the last character of an empty text, count past the range of
an index.
-/

namespace PgxBackup

open List

/-- The function returns this result, after some number of tests. -/
def CodecReturns {α : Type} (f : ℕ → Option (Except EncodeStop α)) (result : Except EncodeStop α) : Prop :=
  ∃ fuel, f fuel = some result

/-! ## Tables and strings -/

variable {α : Type} {c : UInt8} {dest bytes : List UInt8}

theorem arrayGet_ok {array : List α} {i : ℕ} {value : α} (h : array[i]? = some value) :
    arrayGet array i = .ok value := by
  unfold arrayGet
  rw [if_neg (not_lt.mpr (Int.natCast_nonneg i)), Int.toNat_natCast, h]

theorem arrayGet_neg (array : List α) {i : ℤ} (h : i < 0) : arrayGet array i = .error .outOfRange := by
  unfold arrayGet
  rw [if_pos h]

variable {source : List UInt8}

/-- A character of a string, with the terminating zero behind it. -/
theorem arrayGet_source {i : ℕ} (h : source[i]? = some c) :
    arrayGet (source ++ [0]) i = .ok c := by
  refine arrayGet_ok ?_
  rw [getElem?_append_left (List.getElem?_eq_some_iff.mp h).1, h]

theorem charInt_eq (c : UInt8) : charInt c = if c < 0x80 then (c.toNat : ℤ) else (c.toNat : ℤ) - 256 := by
  have hall : ∀ n < 256, ((UInt8.ofNat n).toInt8.toInt : ℤ) = if n < 128 then (n : ℤ) else (n : ℤ) - 256 := by
    set_option maxRecDepth 4000 in decide
  have h := hall c.toNat c.toNat_lt
  rw [UInt8.ofNat_toNat] at h
  exact h

/-- The value of a character in a table, and -1 if it has none. -/
def tableValue (table : List ℤ) (c : UInt8) : ℤ := table.getD c.toNat (-1)

theorem arrayGet_char {table : List ℤ} (hlength : table.length = 256) (h : c < 0x80) :
    arrayGet table (charInt c) = .ok (tableValue table c) := by
  rw [charInt_eq, if_pos h]
  refine arrayGet_ok ?_
  unfold tableValue
  have hlt : c.toNat < table.length := hlength ▸ c.toNat_lt
  rw [getD_eq_getElem?_getD, getElem?_eq_getElem hlt]
  rfl

/-- **A byte from 0x80 on is before the start of the table.** -/
theorem arrayGet_high (table : List ℤ) (h : 0x80 ≤ c) :
    arrayGet table (charInt c) = .error .outOfRange := by
  rw [charInt_eq, if_neg (UInt8.not_lt.mpr h)]
  have hlt := c.toNat_lt
  exact arrayGet_neg _ (by omega)

/-! ## What is rejected -/

def EncodingType.table : EncodingType → List ℤ
  | .base64 => decodeBase64Lookup
  | .hex => decodeHexLookup

/-- The number of characters in a group. -/
def EncodingType.unit : EncodingType → ℕ
  | .base64 => 4
  | .hex => 2

/-- The character at this position does not belong there. -/
def Rejected (type : EncodingType) (source : List UInt8) (i : ℕ) : Prop :=
  ∃ c, source[i]? = some c ∧
    (type = .base64 ∧ c = equalSign ∧
        (i + 2 < source.length ∨ i + 2 = source.length ∧ source.getLast? ≠ some equalSign) ∨
      ¬(type = .base64 ∧ c = equalSign) ∧ c < 0x80 ∧ tableValue type.table c = -1)

/-- The character at this position has no place in the table. -/
def OutOfTable (source : List UInt8) (i : ℕ) : Prop := ∃ c, source[i]? = some c ∧ 0x80 ≤ c

def decodeCheckChar (type : EncodingType) (source : List UInt8) (i : ℕ) : Except EncodeStop Unit :=
  match type with
  | .base64 => decodeToBinValidateBase64Char source i
  | .hex => decodeToBinValidateHexChar source i

theorem length_table (type : EncodingType) : type.table.length = 256 := by
  cases type with
  | base64 => set_option maxRecDepth 4000 in rfl
  | hex => set_option maxRecDepth 4000 in rfl

/-- The error of a character that the table has no value for. -/
def decodeCharError (type : EncodingType) (i : ℕ) : Error :=
  match type with
  | .base64 => ⟨.formatError, "base64 invalid character found at position ".toList ++ Nat.toDigits 10 i⟩
  | .hex => ⟨.formatError, "hex invalid character found at position ".toList ++ Nat.toDigits 10 i⟩

theorem decodeCharError_type (type : EncodingType) (i : ℕ) : (decodeCharError type i).type = .formatError := by
  cases type with
  | base64 => rfl
  | hex => rfl

theorem decodeCheckChar_value {type : EncodingType} {i : ℕ}
    (hc : source[i]? = some c) (hequal : ¬(type = .base64 ∧ c = equalSign)) :
    decodeCheckChar type source i
      = (arrayGet type.table (charInt c) >>= fun value =>
          if value = -1 then .error (.error (decodeCharError type i)) else .ok ()) := by
  cases type with
  | base64 =>
    show decodeToBinValidateBase64Char source i = _
    unfold decodeToBinValidateBase64Char
    rw [arrayGet_source hc]
    exact if_neg fun h => hequal ⟨rfl, h⟩
  | hex =>
    show decodeToBinValidateHexChar source i = _
    unfold decodeToBinValidateHexChar
    rw [arrayGet_source hc]
    rfl

theorem decodeCheckChar_equal {i : ℕ} (hc : source[i]? = some equalSign)
    (hlength : 2 ≤ source.length) :
    decodeCheckChar .base64 source i
      = if i + 2 < source.length then
          .error (.error ⟨.formatError, "base64 '=' character may only appear in last two positions".toList⟩)
        else if i + 2 = source.length ∧ source.getLast? ≠ some equalSign then
          .error (.error ⟨.formatError, "base64 last character must be '=' if second to last is".toList⟩)
        else .ok () := by
  obtain ⟨last, hlast⟩ : ∃ last, source.getLast? = some last :=
    Option.isSome_iff_exists.mp (by rw [getLast?_isSome]; rintro rfl; exact absurd hlength (by decide))
  have hget : arrayGet (source ++ [0]) ((source.length : ℤ) - 1) = .ok last := by
    rw [show (source.length : ℤ) - 1 = ((source.length - 1 : ℕ) : ℤ) by omega]
    refine arrayGet_source ?_
    rw [← getLast?_eq_getElem?, hlast]
  show decodeToBinValidateBase64Char source i = _
  unfold decodeToBinValidateBase64Char
  rw [arrayGet_source hc, ok_bind, if_pos rfl]
  by_cases hbefore : i + 2 < source.length
  · rw [if_pos hbefore, if_pos (by omega)]
  · rw [if_neg hbefore, if_neg (by omega)]
    by_cases hsecond : i + 2 = source.length
    · rw [if_pos (by omega), hget, hlast, ok_bind]
      by_cases heq : last = equalSign
      · rw [if_neg (not_not.mpr heq), if_neg fun h => h.2 (by rw [heq])]
      · rw [if_pos heq, if_pos ⟨hsecond, fun h => heq (Option.some.inj h)⟩]
    · rw [if_neg (by omega), if_neg fun h => hsecond h.1]

variable {type : EncodingType} {source : List UInt8} {i : ℕ}

/-- A text that has whole groups and any character has two of them. -/
theorem two_le_length (hunit : source.length % type.unit = 0) (hi : i < source.length) : 2 ≤ source.length := by
  cases type with
  | base64 =>
    have hunit : source.length % 4 = 0 := hunit
    omega
  | hex =>
    have hunit : source.length % 2 = 0 := hunit
    omega

/-- **A character that is rejected** raises a format error. -/
theorem decodeCheckChar_rejected (hunit : source.length % type.unit = 0) (h : Rejected type source i) :
    ∃ error : Error, error.type = .formatError ∧ decodeCheckChar type source i = .error (.error error) := by
  obtain ⟨c, hc, h⟩ := h
  have hlength := two_le_length hunit (List.getElem?_eq_some_iff.mp hc).1
  rcases h with ⟨rfl, rfl, h⟩ | ⟨hequal, hlow, hvalue⟩
  · rw [decodeCheckChar_equal hc hlength]
    by_cases hbefore : i + 2 < source.length
    · rw [if_pos hbefore]
      exact ⟨_, rfl, rfl⟩
    · rw [if_neg hbefore, if_pos (h.resolve_left hbefore)]
      exact ⟨_, rfl, rfl⟩
  · refine ⟨decodeCharError type i, decodeCharError_type type i, ?_⟩
    rw [decodeCheckChar_value hc hequal, arrayGet_char (length_table type) hlow, hvalue]
    rfl

theorem not_equal_of_high (h : 0x80 ≤ c) : ¬(type = .base64 ∧ c = equalSign) := by
  rintro ⟨-, rfl⟩
  exact absurd h (by decide)

/-- **A byte from 0x80 on** is looked up before the start of the table. -/
theorem decodeCheckChar_outOfTable (h : OutOfTable source i) :
    decodeCheckChar type source i = .error .outOfRange := by
  obtain ⟨c, hc, hhigh⟩ := h
  rw [decodeCheckChar_value hc (not_equal_of_high hhigh), arrayGet_high _ hhigh]
  rfl

/-- **Any other character** passes. -/
theorem decodeCheckChar_ok (hunit : source.length % type.unit = 0) (hi : i < source.length)
    (hrejected : ¬Rejected type source i) (hhigh : ¬OutOfTable source i) : decodeCheckChar type source i = .ok () := by
  obtain ⟨c, hc⟩ : ∃ c, source[i]? = some c := ⟨_, getElem?_eq_getElem hi⟩
  have hlow : c < 0x80 := UInt8.not_le.mp fun h => hhigh ⟨c, hc, h⟩
  by_cases hequal : type = .base64 ∧ c = equalSign
  · obtain ⟨rfl, rfl⟩ := hequal
    have hplace := fun h => hrejected ⟨equalSign, hc, .inl ⟨rfl, rfl, h⟩⟩
    rw [decodeCheckChar_equal hc (two_le_length hunit hi), if_neg fun h => hplace (.inl h),
      if_neg fun h => hplace (.inr h)]
  · have hvalue : tableValue type.table c ≠ -1 := fun h => hrejected ⟨c, hc, .inr ⟨hequal, hlow, h⟩⟩
    rw [decodeCheckChar_value hc hequal, arrayGet_char (length_table type) hlow]
    exact if_neg hvalue

/-! ## The validation -/

/-- The validation of a text. -/
def decodeValidate (type : EncodingType) (fuel : ℕ) (source : List UInt8) : Option (Except EncodeStop Unit) :=
  match type with
  | .base64 => decodeToBinValidateBase64 fuel source
  | .hex => decodeToBinValidateHex fuel source

/-- With a length that is not a multiple of the group size, the validation
raises a format error. -/
theorem decodeValidate_length (hunit : source.length % type.unit ≠ 0) :
    ∃ error : Error, error.type = .formatError ∧
      CodecReturns (fun fuel => decodeValidate type fuel source) (.error (.error error)) := by
  cases type with
  | base64 | hex => exact ⟨_, rfl, 0, if_pos hunit⟩

theorem decodeValidate_iff (hunit : source.length % type.unit = 0) (result : Except EncodeStop Unit) :
    CodecReturns (fun fuel => decodeValidate type fuel source) result ↔
      WordLoop.Ends UINT_RANGE source.length 1 (fun i _ => decodeCheckChar type source i) 0 () result := by
  have hloop : ∀ fuel, decodeValidate type fuel source
      = WordLoop.loop UINT_RANGE source.length 1 (fun i _ => decodeCheckChar type source i) fuel 0 () := by
    intro fuel
    cases type with
    | base64 | hex => exact if_neg (not_not.mpr hunit)
  exact exists_congr fun fuel => Iff.of_eq (congrArg (· = some result) (hloop fuel))

/-- Neither rejected nor outside the table. -/
def CharPasses (type : EncodingType) (source : List UInt8) (i : ℕ) : Prop :=
  ¬Rejected type source i ∧ ¬OutOfTable source i

section

variable (hunit : source.length % type.unit = 0)
include hunit

theorem decodeValidate_rejected (hrange : i < UINT_RANGE) (h : Rejected type source i)
    (hbefore : ∀ j < i, CharPasses type source j) :
    ∃ error : Error, error.type = .formatError ∧
      CodecReturns (fun fuel => decodeValidate type fuel source) (.error (.error error)) := by
  obtain ⟨error, htype, hcheck⟩ := decodeCheckChar_rejected hunit h
  obtain ⟨c, hc, -⟩ := h
  have hi := (List.getElem?_eq_some_iff.mp hc).1
  refine ⟨error, htype, (decodeValidate_iff hunit _).mpr (WordLoop.ends_error_first hi hrange ?_ hcheck)⟩
  exact fun j hj => decodeCheckChar_ok hunit (lt_trans hj hi) (hbefore j hj).1 (hbefore j hj).2

/-- The first character that does not pass has no place in the table. -/
theorem decodeValidate_outOfTable (hrange : i < UINT_RANGE) (h : OutOfTable source i)
    (hbefore : ∀ j < i, CharPasses type source j) :
    CodecReturns (fun fuel => decodeValidate type fuel source) (.error .outOfRange) := by
  have hcheck := @decodeCheckChar_outOfTable type source i h
  obtain ⟨c, hc, -⟩ := h
  have hi := (List.getElem?_eq_some_iff.mp hc).1
  refine (decodeValidate_iff hunit _).mpr (WordLoop.ends_error_first hi hrange ?_ hcheck)
  exact fun j hj => decodeCheckChar_ok hunit (lt_trans hj hi) (hbefore j hj).1 (hbefore j hj).2

/-- All characters of a text that the index can count pass. -/
theorem decodeValidate_ok (hrange : source.length < UINT_RANGE)
    (h : ∀ j < source.length, CharPasses type source j) :
    CodecReturns (fun fuel => decodeValidate type fuel source) (.ok ()) :=
  (decodeValidate_iff hunit _).mpr
    (WordLoop.ends_ok_of_forall hrange fun j hj => decodeCheckChar_ok hunit hj (h j hj).1 (h j hj).2)

/-- **The validation of a longer text does not end** if all the characters that
the index can reach pass. -/
theorem decodeValidate_forever (hrange : UINT_RANGE ≤ source.length)
    (h : ∀ j < UINT_RANGE, CharPasses type source j) (result : Except EncodeStop Unit) :
    ¬CodecReturns (fun fuel => decodeValidate type fuel source) result := by
  intro hreturns
  have hends := (decodeValidate_iff hunit _).mp hreturns
  cases result with
  | ok u => exact WordLoop.not_ends_ok (by decide) hrange (by decide) _ _ hends
  | error stop =>
    obtain ⟨j, t, hj, hlt, hbody⟩ := WordLoop.exists_of_ends_error (by decide) (by decide) hends
    have hok := decodeCheckChar_ok hunit hlt (h j hj).1 (h j hj).2
    cases hok.symm.trans hbody

end

theorem returns_unique {result result' : Except EncodeStop Unit}
    (h : CodecReturns (fun fuel => decodeValidate type fuel source) result)
    (h' : CodecReturns (fun fuel => decodeValidate type fuel source) result') : result = result' := by
  by_cases hunit : source.length % type.unit = 0
  · exact WordLoop.ends_unique ((decodeValidate_iff hunit _).mp h) ((decodeValidate_iff hunit _).mp h')
  · obtain ⟨fuel, h⟩ := h
    obtain ⟨fuel', h'⟩ := h'
    cases type with
    | base64 | hex =>
      exact Option.some.inj ((h.symm.trans (if_pos hunit)).trans ((if_pos hunit).symm.trans h'))

/-! ## The decoding -/

/-- One round of the decoding. -/
def decodeGroup (type : EncodingType) (source : List UInt8) (idx : ℕ) (dest : List UInt8) :
    Except EncodeStop (List UInt8) :=
  match type with
  | .base64 => decodeToBinBase64Group source idx dest
  | .hex => decodeToBinHexGroup source idx dest

/-- The size that is computed for a validated text. -/
def decodeSizeCalc (type : EncodingType) (source : List UInt8) : Except EncodeStop ℕ :=
  match type with
  | .base64 => decodeToBinSizeBase64Calc source
  | .hex => .ok (source.length / 2)

theorem decodeValidate_mono {fuel : ℕ} {result : Except EncodeStop Unit}
    (h : decodeValidate type fuel source = some result) (more : ℕ) :
    decodeValidate type (fuel + more) source = some result := by
  cases type with
  | base64 =>
    unfold decodeValidate decodeToBinValidateBase64 at h ⊢
    dsimp only at h ⊢
    split at h
    next hunit => rw [if_pos hunit, h]
    next hunit => rw [if_neg hunit, WordLoop.loop_mono h]
  | hex =>
    unfold decodeValidate decodeToBinValidateHex at h ⊢
    dsimp only at h ⊢
    split at h
    next hunit => rw [if_pos hunit, h]
    next hunit => rw [if_neg hunit, WordLoop.loop_mono h]

/-- A validation and what follows it. -/
def afterValidate {α : Type} (type : EncodingType) (source : List UInt8)
    (next : ℕ → Option (Except EncodeStop α)) (fuel : ℕ) : Option (Except EncodeStop α) :=
  (decodeValidate type fuel source).bind fun
    | .error stop => some (.error stop)
    | .ok () => next fuel

theorem returns_afterValidate_iff {next : ℕ → Option (Except EncodeStop α)}
    (hnext : ∀ fuel result, next fuel = some result → ∀ more, next (fuel + more) = some result)
    (result : Except EncodeStop α) :
    CodecReturns (afterValidate type source next) result ↔
      (∃ stop, CodecReturns (fun fuel => decodeValidate type fuel source) (.error stop) ∧ result = .error stop) ∨
      CodecReturns (fun fuel => decodeValidate type fuel source) (.ok ()) ∧ CodecReturns next result := by
  constructor
  · rintro ⟨fuel, hfuel⟩
    unfold afterValidate at hfuel
    cases hvalidate : decodeValidate type fuel source with
    | none =>
      rw [hvalidate] at hfuel
      cases hfuel
    | some checked =>
      rw [hvalidate] at hfuel
      cases checked with
      | error stop => exact .inl ⟨stop, ⟨fuel, hvalidate⟩, (Option.some.inj hfuel).symm⟩
      | ok u => exact .inr ⟨⟨fuel, hvalidate⟩, fuel, hfuel⟩
  · rintro (⟨stop, ⟨fuel, hvalidate⟩, rfl⟩ | ⟨⟨fuel, hvalidate⟩, fuel', hreturns⟩)
    · have hvalidate : decodeValidate type fuel source = some (.error stop) := hvalidate
      exact ⟨fuel, by unfold afterValidate; rw [hvalidate]; rfl⟩
    · have hvalidate : decodeValidate type fuel source = some (.ok ()) := hvalidate
      refine ⟨fuel + fuel', ?_⟩
      unfold afterValidate
      rw [decodeValidate_mono hvalidate, Nat.add_comm]
      exact hnext fuel' result hreturns fuel

/-- **What is decoded**: what the validation raises, or the rounds over the
groups. -/
theorem returns_decodeToBin_iff (result : Except EncodeStop (List UInt8)) :
    CodecReturns (fun fuel => decodeToBin fuel type source) result ↔
      (∃ stop, CodecReturns (fun fuel => decodeValidate type fuel source) (.error stop) ∧ result = .error stop) ∨
      CodecReturns (fun fuel => decodeValidate type fuel source) (.ok ()) ∧
        WordLoop.Ends UINT_RANGE source.length type.unit (decodeGroup type source) 0 [] result := by
  have hdef : (fun fuel => decodeToBin fuel type source)
      = afterValidate type source fun fuel =>
          WordLoop.loop UINT_RANGE source.length type.unit (decodeGroup type source) fuel 0 [] := by
    cases type with
    | base64 => rfl
    | hex => rfl
  rw [hdef]
  refine returns_afterValidate_iff ?_ result
  exact fun fuel result h more => WordLoop.loop_mono h more

/-- **The size**: what the validation raises, or what is computed. -/
theorem returns_decodeToBinSize_iff (result : Except EncodeStop ℕ) :
    CodecReturns (fun fuel => decodeToBinSize fuel type source) result ↔
      (∃ stop, CodecReturns (fun fuel => decodeValidate type fuel source) (.error stop) ∧ result = .error stop) ∨
      CodecReturns (fun fuel => decodeValidate type fuel source) (.ok ()) ∧ decodeSizeCalc type source = result := by
  have hdef : (fun fuel => decodeToBinSize fuel type source)
      = afterValidate type source fun _ => some (decodeSizeCalc type source) := by
    cases type with
    | base64 => rfl
    | hex => rfl
  have hreturns : CodecReturns (fun _ => some (decodeSizeCalc type source)) result ↔ decodeSizeCalc type source = result :=
    ⟨fun ⟨_, h⟩ => Option.some.inj h, fun h => ⟨0, congrArg some h⟩⟩
  rw [hdef, ← hreturns]
  refine returns_afterValidate_iff ?_ result
  exact fun _ _ h _ => h

/-- Bytes stored one after the other. -/
def decodePutAll (dest bytes : List UInt8) : Except EncodeStop (List UInt8) := bytes.foldlM decodePut dest

theorem decodePutAll_ok (h : dest.length + bytes.length ≤ DECODE_IDX_MAX) :
    decodePutAll dest bytes = .ok (dest ++ bytes) := by
  unfold decodePutAll
  induction bytes generalizing dest with
  | nil =>
    rw [append_nil]
    rfl
  | cons byte bytes ih =>
    rw [length_cons] at h
    have hput : decodePut dest byte = .ok (dest ++ [byte]) := if_neg (by omega)
    rw [foldlM_cons, hput, ok_bind, ih (by rw [length_append, length_singleton]; omega),
      append_assoc]
    rfl

theorem decodePut_length {next : List UInt8} {byte : UInt8} (h : decodePut dest byte = .ok next)
    (hdest : dest.length ≤ DECODE_IDX_MAX) : next.length ≤ DECODE_IDX_MAX := by
  unfold decodePut at h
  split at h
  · cases h
  next hne =>
    cases h
    rw [length_append, length_singleton]
    omega

theorem decodePutAll_append (dest bytes more : List UInt8) :
    decodePutAll dest (bytes ++ more) = decodePutAll dest bytes >>= fun dest => decodePutAll dest more := by
  unfold decodePutAll
  rw [foldlM_append]

theorem decodePutAll_cons (dest : List UInt8) (byte : UInt8) (bytes : List UInt8) :
    decodePutAll dest (byte :: bytes) = decodePut dest byte >>= fun dest => decodePutAll dest bytes :=
  foldlM_cons

theorem decodePutAll_singleton (dest : List UInt8) (byte : UInt8) :
    decodePutAll dest [byte] = decodePut dest byte := by
  rw [decodePutAll_cons]
  exact bind_pure _

theorem foldlM_decodePutAll {ι : Type} (l : List ι) (bytes : ι → List UInt8) (dest : List UInt8) :
    l.foldlM (fun dest i => decodePutAll dest (bytes i)) dest = decodePutAll dest (l.flatMap bytes) := by
  induction l generalizing dest with
  | nil => rfl
  | cons i l ih =>
    rw [foldlM_cons, flatMap_cons, decodePutAll_append]
    exact congrArg _ (funext fun dest => ih dest)

def groupBytes (type : EncodingType) (chars : List UInt8) : List UInt8 :=
  let value c := tableByte (tableValue type.table c)
  match type, chars with
  | .base64, [c0, c1, c2, c3] =>
    ((value c0 <<< 2) ||| (value c1 >>> 4)).toUInt8
      :: ((if c2 ≠ equalSign then [((value c1 <<< 4) ||| (value c2 >>> 2)).toUInt8] else [])
        ++ if c3 ≠ equalSign then [((value c2 <<< 6).toUInt8 &&& 0xc0) ||| (value c3).toUInt8] else [])
  | .hex, [c0, c1] => [((value c0 <<< 4) ||| value c1).toUInt8]
  | _, _ => []

/-- The bytes of all groups. -/
def decodedBytes (type : EncodingType) (source : List UInt8) : List UInt8 :=
  (Chunks.chunks type.unit source).flatMap (groupBytes type)

/-- A text whose characters all pass, and which the index can count. -/
structure ValidText (type : EncodingType) (source : List UInt8) : Prop where
  unit : source.length % type.unit = 0
  range : source.length < UINT_RANGE
  passes : ∀ i < source.length, CharPasses type source i

theorem ValidText.low (h : ValidText type source) (hc : source[i]? = some c) : c < 0x80 :=
  UInt8.not_le.mp fun hhigh => (h.passes i (List.getElem?_eq_some_iff.mp hc).1).2 ⟨c, hc, hhigh⟩

section

variable (h : ValidText .base64 source) (hc : source[i]? = some equalSign)
include h hc

theorem ValidText.equal_last : source.length ≤ i + 2 := by
  by_contra hlt
  exact (h.passes i (List.getElem?_eq_some_iff.mp hc).1).1 ⟨_, hc, .inl ⟨rfl, rfl, .inl (by omega)⟩⟩

/-- After a terminator there is no other character. -/
theorem ValidText.equal_equal (hi : i + 2 = source.length) : source.getLast? = some equalSign := by
  by_contra hlast
  exact (h.passes i (List.getElem?_eq_some_iff.mp hc).1).1 ⟨_, hc, .inl ⟨rfl, rfl, .inr ⟨hi, hlast⟩⟩⟩

end

theorem chunk_four (hi : 4 * i + 3 < source.length) :
    ∃ c0 c1 c2 c3, Chunks.chunk 4 source i = [c0, c1, c2, c3] ∧ source[4 * i]? = some c0 ∧
      source[4 * i + 1]? = some c1 ∧ source[4 * i + 2]? = some c2 ∧ source[4 * i + 3]? = some c3 := by
  have h0 : source[4 * i]? = some source[4 * i] := getElem?_eq_getElem (by omega)
  have h1 : source[4 * i + 1]? = some source[4 * i + 1] := getElem?_eq_getElem (by omega)
  have h2 : source[4 * i + 2]? = some source[4 * i + 2] := getElem?_eq_getElem (by omega)
  have h3 : source[4 * i + 3]? = some source[4 * i + 3] := getElem?_eq_getElem (by omega)
  refine ⟨_, _, _, _, ?_, h0, h1, h2, h3⟩
  unfold Chunks.chunk
  rw [Nat.mul_comm, drop_eq_getElem_cons (by omega), drop_eq_getElem_cons (by omega),
    drop_eq_getElem_cons (by omega), drop_eq_getElem_cons (by omega)]
  rfl

theorem chunk_two (hi : 2 * i + 1 < source.length) :
    ∃ c0 c1, Chunks.chunk 2 source i = [c0, c1] ∧ source[2 * i]? = some c0 ∧ source[2 * i + 1]? = some c1 := by
  have h0 : source[2 * i]? = some source[2 * i] := getElem?_eq_getElem (by omega)
  have h1 : source[2 * i + 1]? = some source[2 * i + 1] := getElem?_eq_getElem (by omega)
  refine ⟨_, _, ?_, h0, h1⟩
  unfold Chunks.chunk
  rw [Nat.mul_comm, drop_eq_getElem_cons (by omega), drop_eq_getElem_cons (by omega)]
  rfl

/-- **One round stores the bytes of its group.** -/
theorem decodeGroup_eq (h : ValidText type source) (hi : type.unit * i < source.length) (dest : List UInt8) :
    decodeGroup type source (type.unit * i) dest
      = decodePutAll dest (groupBytes type (Chunks.chunk type.unit source i)) := by
  have hunit := h.unit
  have hrange := h.range
  cases type with
  | base64 =>
    have hunit : source.length % 4 = 0 := hunit
    have hi : 4 * i < source.length := hi
    obtain ⟨c0, c1, c2, c3, hchunk, h0, h1, h2, h3⟩ := @chunk_four source i (by omega)
    show decodeToBinBase64Group source (4 * i) dest = decodePutAll dest (groupBytes .base64 (Chunks.chunk 4 source i))
    rw [hchunk]
    have hmod {k : ℕ} (hk : 4 * i + k < source.length) : (4 * i + k) % UINT_RANGE = 4 * i + k :=
      Nat.mod_eq_of_lt (lt_trans hk hrange)
    have htable {c : UInt8} {j : ℕ} (hc : source[j]? = some c) :
        arrayGet decodeBase64Lookup (charInt c) = .ok (tableValue decodeBase64Lookup c) :=
      arrayGet_char (length_table .base64) (h.low hc)
    unfold decodeToBinBase64Group
    rw [hmod (by omega), hmod (by omega), hmod (by omega), arrayGet_source h0, ok_bind, arrayGet_source h1, ok_bind,
      htable h0, ok_bind, htable h1, ok_bind]
    refine Eq.trans (congrArg _ (funext fun dest => ?_)) (decodePutAll_cons dest _ _).symm
    simp only [arrayGet_source h2, arrayGet_source h3, ok_bind, htable h2, htable h3, decodePutAll_append]
    -- Each of the two other bytes is there or not.
    have hthird (dest : List UInt8) :
        (if c3 ≠ equalSign then
            decodePut dest ((tableByte (tableValue decodeBase64Lookup c2) <<< 6).toUInt8 &&& 0xc0
              ||| (tableByte (tableValue decodeBase64Lookup c3)).toUInt8)
          else .ok dest)
        = decodePutAll dest (if c3 ≠ equalSign then
            [((tableByte (tableValue decodeBase64Lookup c2) <<< 6).toUInt8 &&& 0xc0)
              ||| (tableByte (tableValue decodeBase64Lookup c3)).toUInt8] else []) := by
      by_cases hc3 : c3 ≠ equalSign
      · rw [if_pos hc3, if_pos hc3, decodePutAll_singleton]
      · rw [if_neg hc3, if_neg hc3]
        rfl
    by_cases hc2 : c2 ≠ equalSign
    · rw [if_pos hc2, if_pos hc2, decodePutAll_singleton]
      exact congrArg _ (funext fun dest => hthird dest)
    · rw [if_neg hc2, if_neg hc2]
      exact hthird dest
  | hex =>
    have hunit : source.length % 2 = 0 := hunit
    have hi : 2 * i < source.length := hi
    obtain ⟨c0, c1, hchunk, h0, h1⟩ := @chunk_two source i (by omega)
    show decodeToBinHexGroup source (2 * i) dest = decodePutAll dest (groupBytes .hex (Chunks.chunk 2 source i))
    rw [hchunk]
    have htable {c : UInt8} {j : ℕ} (hc : source[j]? = some c) :
        arrayGet decodeHexLookup (charInt c) = .ok (tableValue decodeHexLookup c) :=
      arrayGet_char (length_table .hex) (h.low hc)
    unfold decodeToBinHexGroup
    rw [Nat.mod_eq_of_lt (show 2 * i + 1 < UINT_RANGE by omega), arrayGet_source h0, ok_bind, arrayGet_source h1,
      ok_bind, htable h0, ok_bind, htable h1, ok_bind]
    exact (decodePutAll_singleton dest _).symm

theorem EncodingType.unit_pos (type : EncodingType) : 0 < type.unit := by
  cases type with
  | base64 => decide
  | hex => decide

section

variable (h : ValidText type source)
include h

theorem ValidText.length_eq : type.unit * (source.length / type.unit) = source.length :=
  Nat.mul_div_cancel' (Nat.dvd_of_mod_eq_zero h.unit)

theorem ValidText.total : Chunks.total type.unit source.length = source.length / type.unit := by
  unfold Chunks.total
  rw [if_pos h.unit, Nat.add_zero]

/-- **All rounds store the bytes of all groups.** -/
theorem decode_ends :
    WordLoop.Ends UINT_RANGE source.length type.unit (decodeGroup type source) 0 []
      (decodePutAll [] (decodedBytes type source)) := by
  have hlow : ∀ i < source.length / type.unit, type.unit * i < source.length := fun i hi =>
    lt_of_lt_of_le (Nat.mul_lt_mul_of_pos_left hi type.unit_pos) h.length_eq.le
  have hfold := foldlM_decodePutAll (range (source.length / type.unit))
    (fun i => groupBytes type (Chunks.chunk type.unit source i)) []
  have hbytes : (range (source.length / type.unit)).flatMap
      (fun i => groupBytes type (Chunks.chunk type.unit source i)) = decodedBytes type source := by
    unfold decodedBytes Chunks.chunks
    rw [flatMap_map, h.total]
  rw [← hbytes, ← hfold]
  refine WordLoop.ends_foldlM hlow h.length_eq.ge (h.length_eq.trans_lt h.range) ?_ []
  exact fun i hi dest => decodeGroup_eq h (hlow i hi) dest

/-- **A valid text** is decoded to the bytes of its groups, as far as the index
can count them. -/
theorem returns_decodeToBin_valid (result : Except EncodeStop (List UInt8)) :
    CodecReturns (fun fuel => decodeToBin fuel type source) result ↔
      result = decodePutAll [] (decodedBytes type source) := by
  have hvalidate := decodeValidate_ok h.unit h.range h.passes
  rw [returns_decodeToBin_iff]
  constructor
  · rintro (⟨stop, hstop, -⟩ | ⟨-, hends⟩)
    · cases returns_unique hvalidate hstop
    · exact WordLoop.ends_unique hends (decode_ends h)
  · rintro rfl
    exact .inr ⟨hvalidate, decode_ends h⟩

theorem returns_decodeToBinSize_valid (result : Except EncodeStop ℕ) :
    CodecReturns (fun fuel => decodeToBinSize fuel type source) result ↔ decodeSizeCalc type source = result := by
  have hvalidate := decodeValidate_ok h.unit h.range h.passes
  rw [returns_decodeToBinSize_iff]
  constructor
  · rintro (⟨stop, hstop, -⟩ | ⟨-, hcalc⟩)
    · cases returns_unique hvalidate hstop
    · exact hcalc
  · exact fun hcalc => .inr ⟨hvalidate, hcalc⟩

end

/-! ## The size -/

/-- The number of bytes that a text stands for. -/
def decodedSize (type : EncodingType) (source : List UInt8) : ℕ :=
  match type with
  | .base64 => source.length / 4 * 3 - source.count equalSign
  | .hex => source.length / 2

theorem exists_last_group (hunit : source.length % 4 = 0) (hne : source ≠ []) :
    ∃ m front c0 c1 c2 c3, source = front ++ [c0, c1, c2, c3] ∧ front.length = m * 4 := by
  have hpos := length_pos_iff.mpr hne
  obtain ⟨c0, c1, c2, c3, hchunk, -⟩ := @chunk_four source (source.length / 4 - 1) (by omega)
  refine ⟨source.length / 4 - 1, source.take ((source.length / 4 - 1) * 4), c0, c1, c2, c3, ?_, ?_⟩
  · rw [← hchunk]
    unfold Chunks.chunk
    have hdrop : (source.drop ((source.length / 4 - 1) * 4)).length ≤ 4 := by
      rw [length_drop]
      omega
    rw [take_of_length_le hdrop, take_append_drop]
  · rw [length_take]
    omega

/-- The shape of a valid base64 text: there are terminators in the last group
only, and none before another character. -/
structure LastGroup (source front : List UInt8) (c0 c1 c2 c3 : UInt8) (m : ℕ) : Prop where
  eq : source = front ++ [c0, c1, c2, c3]
  length : front.length = m * 4
  front_ne : ∀ c ∈ front, c ≠ equalSign
  c0_ne : c0 ≠ equalSign
  c1_ne : c1 ≠ equalSign
  c2_of : c2 = equalSign → c3 = equalSign

theorem exists_lastGroup (h : ValidText .base64 source) (hne : source ≠ []) :
    ∃ front c0 c1 c2 c3 m, LastGroup source front c0 c1 c2 c3 m := by
  obtain ⟨m, front, c0, c1, c2, c3, hsource, hfront⟩ := exists_last_group h.unit hne
  have hlength : source.length = front.length + 4 := by rw [hsource, length_append]; rfl
  have hget {k : ℕ} {c : UInt8} (hc : [c0, c1, c2, c3][k]? = some c) : source[front.length + k]? = some c := by
    rw [hsource, getElem?_append_right (Nat.le_add_right _ _), Nat.add_sub_cancel_left, hc]
  refine ⟨front, c0, c1, c2, c3, m, hsource, hfront, ?_, ?_, ?_, ?_⟩
  · rintro c hc rfl
    obtain ⟨i, hi⟩ := getElem?_of_mem hc
    have hlt := (List.getElem?_eq_some_iff.mp hi).1
    have hlast := h.equal_last (i := i) (by rw [hsource, getElem?_append_left hlt, hi])
    omega
  · rintro rfl
    have hlast := h.equal_last (hget (k := 0) rfl)
    omega
  · rintro rfl
    have hlast := h.equal_last (hget (k := 1) rfl)
    omega
  · rintro rfl
    have hlast := h.equal_equal (hget (k := 2) rfl) (by omega)
    rw [hsource, getLast?_append_of_ne_nil _ (cons_ne_nil _ _)] at hlast
    exact Option.some.inj hlast

theorem length_groupBytes_base64 (c0 c1 c2 c3 : UInt8) :
    (groupBytes .base64 [c0, c1, c2, c3]).length + ([c2, c3].count equalSign) = 3 := by
  unfold groupBytes
  by_cases hc2 : c2 = equalSign
  · by_cases hc3 : c3 = equalSign
    · simp [hc2, hc3]
    · simp [hc2, hc3]
  · by_cases hc3 : c3 = equalSign
    · simp [hc2, hc3]
    · simp [hc2, hc3]

theorem count_group {front : List UInt8} {c0 c1 c2 c3 : UInt8} {m : ℕ}
    (h : LastGroup source front c0 c1 c2 c3 m) : source.count equalSign = [c2, c3].count equalSign := by
  rw [h.eq, count_append, count_eq_zero_of_not_mem fun hmem => h.front_ne _ hmem rfl, Nat.zero_add,
    count_cons_of_ne h.c0_ne, count_cons_of_ne h.c1_ne]

/-- **The bytes of all groups are as many as the text stands for.** -/
theorem length_decodedBytes (h : ValidText type source) : (decodedBytes type source).length = decodedSize type source := by
  have hlengths {k : ℕ} {l : List UInt8} (hl : ∀ chars ∈ Chunks.chunks type.unit l, (groupBytes type chars).length = k) :
      ((Chunks.chunks type.unit l).flatMap (groupBytes type)).length = Chunks.total type.unit l.length * k := by
    rw [flatMap_def, Chunks.length_flatten_of_length (n := k), length_map, Chunks.length_chunks]
    intro piece hpiece
    obtain ⟨chars, hchars, rfl⟩ := mem_map.mp hpiece
    exact hl chars hchars
  unfold decodedBytes
  cases type with
  | hex =>
    rw [@hlengths 1, h.total, Nat.mul_one]
    · rfl
    · intro chars hchars
      obtain ⟨i, hi, rfl⟩ := mem_map.mp hchars
      have hi : i < source.length / 2 := h.total ▸ mem_range.mp hi
      obtain ⟨c0, c1, hchunk, -⟩ := @chunk_two source i (by omega)
      show (groupBytes .hex (Chunks.chunk 2 source i)).length = 1
      rw [hchunk]
      rfl
  | base64 =>
    by_cases hne : source = []
    · rw [hne]
      rfl
    · obtain ⟨front, c0, c1, c2, c3, m, hlast⟩ := exists_lastGroup h hne
      have hchunks : Chunks.chunks 4 source = Chunks.chunks 4 front ++ [[c0, c1, c2, c3]] := by
        rw [hlast.eq, Chunks.chunks_append (by decide) hlast.length (cons_ne_nil _ _) le_rfl]
      have hlength : source.length = (m + 1) * 4 := by
        rw [hlast.eq, length_append, hlast.length, Nat.succ_mul]
        rfl
      have hgroup := length_groupBytes_base64 c0 c1 c2 c3
      show ((Chunks.chunks 4 source).flatMap (groupBytes .base64)).length
        = source.length / 4 * 3 - source.count equalSign
      rw [hchunks, flatMap_append, length_append, flatMap_singleton, count_group hlast, hlength,
        Nat.mul_div_cancel _ (by decide)]
      have hfront : ((Chunks.chunks 4 front).flatMap (groupBytes .base64)).length = m * 3 := by
        refine Eq.trans (@hlengths 3 front ?_) ?_
        · intro chars hchars
          obtain ⟨i, hi, rfl⟩ := mem_map.mp hchars
          have hi : i < m := by
            have htotal := Chunks.total_mul (n := 4) (by decide) m
            rw [← hlast.length] at htotal
            exact htotal ▸ mem_range.mp hi
          obtain ⟨d0, d1, d2, d3, hchunk, -, -, h2, h3⟩ := @chunk_four front i (by have := hlast.length; omega)
          have hcount : [d2, d3].count equalSign = 0 := by
            rw [count_cons_of_ne (hlast.front_ne _ (mem_of_getElem? h2)),
              count_cons_of_ne (hlast.front_ne _ (mem_of_getElem? h3))]
            rfl
          have hbytes := length_groupBytes_base64 d0 d1 d2 d3
          show (groupBytes .base64 (Chunks.chunk 4 front i)).length = 3
          rw [hchunk]
          omega
        · show Chunks.total 4 front.length * 3 = m * 3
          rw [hlast.length, Chunks.total_mul (by decide)]
      omega

/-- **The size that is computed is this one**, unless the text has no last
character. -/
theorem decodeSizeCalc_eq (h : ValidText type source) (hne : type = .base64 → source ≠ []) :
    decodeSizeCalc type source = .ok (decodedSize type source) := by
  cases type with
  | hex => rfl
  | base64 =>
    obtain ⟨front, c0, c1, c2, c3, m, hlast⟩ := exists_lastGroup h (hne rfl)
    have hlength : source.length = front.length + 4 := by
      rw [hlast.eq, length_append]
      rfl
    have hget {k : ℕ} {c : UInt8} (hc : [c0, c1, c2, c3][k]? = some c) (hk : k < 4) :
        arrayGet (source ++ [0]) ((source.length : ℤ) - (4 - k : ℕ)) = .ok c := by
      rw [show (source.length : ℤ) - (4 - k : ℕ) = (front.length + k : ℕ) by omega]
      refine arrayGet_source ?_
      rw [hlast.eq, getElem?_append_right (Nat.le_add_right _ _), Nat.add_sub_cancel_left, hc]
    have hget2 : arrayGet (source ++ [0]) ((source.length : ℤ) - 2) = .ok c2 := @hget 2 _ rfl (by decide)
    have hget3 : arrayGet (source ++ [0]) ((source.length : ℤ) - 1) = .ok c3 := @hget 3 _ rfl (by decide)
    show decodeToBinSizeBase64Calc source = .ok (source.length / 4 * 3 - source.count equalSign)
    unfold decodeToBinSizeBase64Calc
    dsimp only
    rw [hget3, ok_bind, hget2, ok_bind, count_group hlast]
    by_cases hc3 : c3 = equalSign
    · rw [if_pos hc3]
      by_cases hc2 : c2 = equalSign
      · rw [if_pos hc2, hc2, hc3]
        rfl
      · rw [if_neg hc2, count_cons_of_ne hc2, hc3]
        rfl
    · have hc2 : c2 ≠ equalSign := fun hc2 => hc3 (hlast.c2_of hc2)
      rw [if_neg hc3, count_cons_of_ne hc2, count_cons_of_ne hc3]
      rfl

/-! ## Texts of arbitrary bytes -/

/-- The functions reject the text, or they store exactly as many bytes as the
size says. Nothing is read outside its range. -/
def DecodeExact (type : EncodingType) (source : List UInt8) : Prop :=
  (∃ error error' : Error, error.type = .formatError ∧ error'.type = .formatError ∧
    CodecReturns (fun fuel => decodeToBin fuel type source) (.error (.error error)) ∧
    CodecReturns (fun fuel => decodeToBinSize fuel type source) (.error (.error error'))) ∨
  ∃ bytes, CodecReturns (fun fuel => decodeToBin fuel type source) (.ok bytes) ∧
    CodecReturns (fun fuel => decodeToBinSize fuel type source) (.ok bytes.length)

/-- The texts for which they do: there is a last character, a byte from 0x80 on
stands behind a character that is rejected, and the index reaches what is
rejected or counts the whole text. -/
structure Decodable (type : EncodingType) (source : List UInt8) : Prop where
  ne_nil : type = .base64 → source ≠ []
  outOfTable : source.length % type.unit = 0 → ∀ i < UINT_RANGE, OutOfTable source i → ∃ j < i, Rejected type source j
  reached : source.length % type.unit = 0 → (∀ i < UINT_RANGE, ¬Rejected type source i) →
    source.length < UINT_RANGE ∧ decodedSize type source ≤ DECODE_IDX_MAX

theorem not_decodeExact_of_outOfRange
    (h : CodecReturns (fun fuel => decodeValidate type fuel source) (.error .outOfRange)) : ¬DecodeExact type source := by
  have hresult {result : Except EncodeStop (List UInt8)}
      (hreturns : CodecReturns (fun fuel => decodeToBin fuel type source) result) : result = .error .outOfRange := by
    rcases (returns_decodeToBin_iff result).mp hreturns with ⟨stop, hstop, rfl⟩ | ⟨hok, -⟩
    · obtain rfl := Except.error.inj (returns_unique hstop h)
      rfl
    · cases returns_unique hok h
  rintro (⟨error, error', -, -, hreturns, -⟩ | ⟨bytes, hreturns, -⟩)
  · cases hresult hreturns
  · cases hresult hreturns

theorem decodeExact_of_formatError {error : Error} (htype : error.type = .formatError)
    (h : CodecReturns (fun fuel => decodeValidate type fuel source) (.error (.error error))) : DecodeExact type source :=
  .inl ⟨error, error, htype, htype, (returns_decodeToBin_iff _).mpr (.inl ⟨_, h, rfl⟩),
    (returns_decodeToBinSize_iff _).mpr (.inl ⟨_, h, rfl⟩)⟩

theorem decodePutAll_length {next : List UInt8} (h : decodePutAll dest bytes = .ok next)
    (hdest : dest.length ≤ DECODE_IDX_MAX) : next.length ≤ DECODE_IDX_MAX := by
  induction bytes generalizing dest with
  | nil =>
    cases h
    exact hdest
  | cons byte bytes ih =>
    rw [decodePutAll_cons] at h
    obtain ⟨mid, hmid, h⟩ := ok_of_bind h
    exact ih h (decodePut_length hmid hdest)

theorem length_le_of_returns
    (h : ValidText type source) (hreturns : CodecReturns (fun fuel => decodeToBin fuel type source) (.ok bytes)) :
    bytes.length ≤ DECODE_IDX_MAX :=
  decodePutAll_length ((returns_decodeToBin_valid h _).mp hreturns).symm (Nat.zero_le _)

theorem not_decodeExact_nil : ¬DecodeExact .base64 [] := by
  have hvalid : ValidText .base64 [] := ⟨rfl, by decide, fun i hi => absurd hi (Nat.not_lt_zero i)⟩
  have hsize {result : Except EncodeStop ℕ}
      (hreturns : CodecReturns (fun fuel => decodeToBinSize fuel .base64 []) result) : .error .outOfRange = result :=
    (returns_decodeToBinSize_valid hvalid result).mp hreturns
  rintro (⟨error, error', -, -, -, hreturns⟩ | ⟨bytes, -, hreturns⟩)
  · cases hsize hreturns
  · cases hsize hreturns

/-- **The functions do what they should for these texts, and for no others.** -/
theorem decodeExact_iff (type : EncodingType) (source : List UInt8) :
    DecodeExact type source ↔ Decodable type source := by
  classical
  constructor
  · intro hexact
    have hnil : type = .base64 → source ≠ [] := by
      rintro rfl rfl
      exact not_decodeExact_nil hexact
    have hbehind (hunit : source.length % type.unit = 0) :
        ∀ i < UINT_RANGE, OutOfTable source i → ∃ j < i, Rejected type source j := by
      intro i hi hhigh
      by_contra hnone
      -- The first byte from 0x80 on is looked up.
      have hleast : ∃ k, OutOfTable source k := ⟨i, hhigh⟩
      have hle := Nat.find_min' hleast hhigh
      refine not_decodeExact_of_outOfRange
        (decodeValidate_outOfTable hunit (lt_of_le_of_lt hle hi) (Nat.find_spec hleast) ?_) hexact
      exact fun j hj => ⟨fun hrejected => hnone ⟨j, lt_of_lt_of_le hj hle, hrejected⟩, Nat.find_min hleast hj⟩
    refine ⟨hnil, hbehind, fun hunit hnone => ?_⟩
    have hpasses : ∀ j < UINT_RANGE, CharPasses type source j := by
      refine fun j hj => ⟨hnone j hj, fun hhigh => ?_⟩
      obtain ⟨k, hk, hrejected⟩ := hbehind hunit j hj hhigh
      exact hnone k (lt_trans hk hj) hrejected
    have hrange : source.length < UINT_RANGE := by
      by_contra hlong
      have hforever := decodeValidate_forever hunit (not_lt.mp hlong) hpasses
      rcases hexact with ⟨error, error', -, -, hreturns, -⟩ | ⟨bytes, hreturns, -⟩
      · rcases (returns_decodeToBin_iff _).mp hreturns with ⟨stop, hstop, -⟩ | ⟨hok, -⟩
        · exact hforever _ hstop
        · exact hforever _ hok
      · rcases (returns_decodeToBin_iff _).mp hreturns with ⟨stop, hstop, -⟩ | ⟨hok, -⟩
        · exact hforever _ hstop
        · exact hforever _ hok
    have hvalid : ValidText type source := ⟨hunit, hrange, fun i hi => hpasses i (lt_trans hi hrange)⟩
    have hsize {result : Except EncodeStop ℕ}
        (hreturns : CodecReturns (fun fuel => decodeToBinSize fuel type source) result) :
        .ok (decodedSize type source) = result :=
      (decodeSizeCalc_eq hvalid hnil).symm.trans ((returns_decodeToBinSize_valid hvalid result).mp hreturns)
    refine ⟨hrange, ?_⟩
    rcases hexact with ⟨error, error', -, -, -, hreturns⟩ | ⟨bytes, hbytes, hreturns⟩
    · cases hsize hreturns
    · rw [Except.ok.inj (hsize hreturns)]
      exact length_le_of_returns hvalid hbytes
  · rintro ⟨hnil, hbehind, hreached⟩
    by_cases hunit : source.length % type.unit = 0
    · by_cases hrejected : ∃ i, i < UINT_RANGE ∧ Rejected type source i
      · -- The first character that is rejected is reached.
        have hspec := Nat.find_spec hrejected
        have hbefore : ∀ j < Nat.find hrejected, CharPasses type source j := by
          have hnone : ∀ j < Nat.find hrejected, ¬Rejected type source j := fun j hj h =>
            Nat.find_min hrejected hj ⟨lt_trans hj hspec.1, h⟩
          refine fun j hj => ⟨hnone j hj, fun hhigh => ?_⟩
          obtain ⟨k, hk, h⟩ := hbehind hunit j (lt_trans hj hspec.1) hhigh
          exact hnone k (lt_trans hk hj) h
        obtain ⟨error, htype, hreturns⟩ := decodeValidate_rejected hunit hspec.1 hspec.2 hbefore
        exact decodeExact_of_formatError htype hreturns
      · have hnone : ∀ i < UINT_RANGE, ¬Rejected type source i := fun i hi h => hrejected ⟨i, hi, h⟩
        obtain ⟨hrange, hsize⟩ := hreached hunit hnone
        have hvalid : ValidText type source := by
          refine ⟨hunit, hrange, fun i hi => ⟨hnone i (lt_trans hi hrange), fun hhigh => ?_⟩⟩
          obtain ⟨k, hk, h⟩ := hbehind hunit i (lt_trans hi hrange) hhigh
          exact hnone k (lt_trans hk (lt_trans hi hrange)) h
        have hlength := length_decodedBytes hvalid
        refine .inr ⟨decodedBytes type source, (returns_decodeToBin_valid hvalid _).mpr ?_,
          (returns_decodeToBinSize_valid hvalid _).mpr ?_⟩
        · rw [decodePutAll_ok (by rw [length_nil, hlength, Nat.zero_add]; exact hsize), nil_append]
        · rw [decodeSizeCalc_eq hvalid hnil, hlength]
    · obtain ⟨error, htype, hreturns⟩ := decodeValidate_length hunit
      exact decodeExact_of_formatError htype hreturns

end PgxBackup
