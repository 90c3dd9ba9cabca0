import PgxBackup.Base128
import PgxBackup.Text

/-!
# Integers on the wire

Fixed width arithmetic, the varint-128 and ZigZag encodings as the program
uses them, and reading from a stream. A read either throws or returns a
value and leaves the rest of the stream.
-/

namespace PgxBackup

open Base128

/-! ## Fixed width -/

/-- A value stored in an `unsigned int`. -/
def u32 (n : ℕ) : ℕ := n % 2 ^ 32

/-- A value stored in a `uint64_t`. -/
def u64 (n : ℕ) : ℕ := n % 2 ^ 64

/-- The difference of two values of type `uint64_t`. -/
def u64Sub (a b : ℕ) : ℕ := u64 (a + (2 ^ 64 - u64 b))

/-- A `uint64_t` cast to an `int64_t`. -/
def i64 (n : ℕ) : ℤ := (BitVec.ofNat 64 n).toInt

/-- An `int64_t` cast to a `uint64_t`. -/
def u64Cast (n : ℤ) : ℕ := (BitVec.ofInt 64 n).toNat

/-- `cvtInt64ToZigZag`. -/
def cvtInt64ToZigZag (value : ℤ) : ℕ := (zigZag (BitVec.ofInt 64 value)).toNat

/-- `cvtInt64FromZigZag`. -/
def cvtInt64FromZigZag (value : ℕ) : ℤ := (unZigZag (BitVec.ofNat 64 value)).toInt

/-- An assertion of the source. -/
def ASSERT (condition : Bool) (text : String) : Except Error Unit :=
  if condition then .ok ()
  else .error ⟨.assertError, "assertion '".toList ++ text.toList ++ "' failed".toList⟩

/-! ## Varint-128 -/

/-- Bytes that a 64-bit value takes at most. -/
def CVT_VARINT128_BUFFER_SIZE : ℕ := 10

/-- `cvtUInt64ToVarInt128`, into a buffer of the given size. -/
def cvtUInt64ToVarInt128 (bufferSize value : ℕ) : Except Error (List UInt8) :=
  encode ⟨.assertError, "buffer overflow".toList⟩ bufferSize value

/-- `ioWriteVarIntU64`. -/
def ioWriteVarIntU64 (value : ℕ) : Except Error (List UInt8) :=
  cvtUInt64ToVarInt128 CVT_VARINT128_BUFFER_SIZE value

/-- A read from a stream of bytes. -/
abbrev IoRead (α : Type) := StateT (List UInt8) (Except Error) α

/-- `ioReadVarIntU64`. -/
def ioReadVarIntU64 : IoRead ℕ := fun stream =>
  decode ⟨.fileReadError, "unexpected eof".toList⟩
    ⟨.formatError, "unterminated base-128 integer".toList⟩ 64 CVT_VARINT128_BUFFER_SIZE 0 0 stream

/-- `ioRead` into an empty buffer of the given size. At the end of the stream
the buffer is not filled. -/
def ioRead (size : ℕ) : IoRead (List UInt8) := fun stream =>
  .ok (stream.take size, stream.drop size)

def varInt (value : ℕ) : List UInt8 :=
  match ioWriteVarIntU64 value with
  | .ok bytes => bytes
  | .error _ => []

/-- The bytes of a value that is stored under a condition. -/
def varIntIf (condition : Bool) (value : ℕ) : List UInt8 :=
  if condition then varInt value else []

section VarInt

variable {value n : ℕ} {α β : Type}

@[simp] theorem u64_of_lt (h : n < 2 ^ 64) : u64 n = n := Nat.mod_eq_of_lt h

theorem u32_of_lt (h : n < 2 ^ 32) : u32 n = n := Nat.mod_eq_of_lt h

theorem u64Sub_of_le {a b : ℕ} (h : b ≤ a) (ha : a < 2 ^ 64) : u64Sub a b = a - b := by
  unfold u64Sub
  rw [u64_of_lt (lt_of_le_of_lt h ha)]
  unfold u64
  omega

@[simp] theorem ASSERT_of_true {condition : Bool} (h : condition = true) (text : String) :
    ASSERT condition text = .ok () := by
  unfold ASSERT
  rw [if_pos h]

section

variable (h : value < 2 ^ 64)
include h

/-- **A 64-bit value fits the buffer and is read back.** -/
theorem varInt_spec :
    ioWriteVarIntU64 value = .ok (varInt value) ∧ varInt value ≠ [] ∧
      ∀ rest, ioReadVarIntU64.run (varInt value ++ rest) = .ok (value, rest) := by
  have hfits : value < 2 ^ (7 * CVT_VARINT128_BUFFER_SIZE) := by
    refine lt_of_lt_of_le h (Nat.pow_le_pow_right (by decide) (by decide))
  obtain ⟨bytes, hok, hne, hdecode⟩ := decode_encode
    (⟨.assertError, "buffer overflow".toList⟩ : Error)
    ⟨.fileReadError, "unexpected eof".toList⟩
    ⟨.formatError, "unterminated base-128 integer".toList⟩ 64 CVT_VARINT128_BUFFER_SIZE value
    hfits (by decide)
  have hok : ioWriteVarIntU64 value = .ok bytes := hok
  have hbytes : varInt value = bytes := by
    unfold varInt
    rw [hok]
  rw [hbytes]
  refine ⟨hok, hne, fun rest => ?_⟩
  have hread := hdecode 0 0 rest (by simp) (by simpa using h)
  rw [Nat.mul_zero, pow_zero, Nat.mul_one, Nat.zero_add] at hread
  exact hread

theorem ioWriteVarIntU64_ok : ioWriteVarIntU64 value = .ok (varInt value) :=
  (varInt_spec h).1

theorem varInt_ne_nil : varInt value ≠ [] := (varInt_spec h).2.1

theorem run_ioReadVarIntU64 (rest : List UInt8) :
    ioReadVarIntU64.run (varInt value ++ rest) = .ok (value, rest) := (varInt_spec h).2.2 rest

end

theorem run_ioRead (bytes rest : List UInt8) (h : bytes.length = n) :
    (ioRead n).run (bytes ++ rest) = .ok (bytes, rest) := by
  show Except.ok (((bytes ++ rest).take n), ((bytes ++ rest).drop n)) = _
  rw [← h, List.take_left, List.drop_left]

/-! ## ZigZag -/

variable {x : ℤ}

theorem i64_of_lt (h : n < 2 ^ 63) : i64 n = n := by
  unfold i64
  rw [BitVec.toInt_ofNat']
  exact Int.bmod_eq_of_le (by omega) (by omega)

theorem u64Cast_natCast (h : n < 2 ^ 64) : u64Cast n = n := by
  unfold u64Cast
  rw [BitVec.ofInt_natCast, BitVec.toNat_ofNat, Nat.mod_eq_of_lt h]

theorem cvtInt64FromZigZag_to (hlow : -2 ^ 63 ≤ x) (hhigh : x < 2 ^ 63) :
    cvtInt64FromZigZag (cvtInt64ToZigZag x) = x := by
  unfold cvtInt64FromZigZag cvtInt64ToZigZag
  rw [BitVec.ofNat_toNat, BitVec.setWidth_eq, unZigZag_zigZag,
    BitVec.toInt_ofInt_eq_self (by decide) hlow hhigh]

theorem cvtInt64ToZigZag_lt (hlow : -2 ^ 59 < x) (hhigh : x < 2 ^ 59) :
    cvtInt64ToZigZag x < 2 ^ 60 := by
  have h := toNat_zigZag (w := 64) (x := x) (by decide) (by omega) (by omega)
  unfold cvtInt64ToZigZag
  split at h
  · omega
  · omega

end VarInt

end PgxBackup
