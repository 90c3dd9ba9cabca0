import PgxBackup.Pack
import PgxBackup.ReadStream

/-!
# Two decoders for one encoding

A number is decoded from a buffer by `cvtUInt64FromVarInt128` and from a stream
by `ioReadVarIntU64`, whatever part of the stream is in the buffers of the
reader. Both read what `cvtUInt64ToVarInt128` has written, and they decode or
reject the same bytes.
-/

namespace PgxBackup

open List

/-- **What is written** takes one to ten bytes, also in a larger buffer. -/
theorem cvtUInt64ToVarInt128_length {value bufferSize : ℕ} (h : value < 2 ^ 64)
    (hsize : CVT_VARINT128_BUFFER_SIZE ≤ bufferSize) :
    cvtUInt64ToVarInt128 bufferSize value = .ok (varInt value) ∧
      0 < (varInt value).length ∧ (varInt value).length ≤ CVT_VARINT128_BUFFER_SIZE :=
  ⟨Base128.encode_of_le (ioWriteVarIntU64_ok h) hsize, length_pos_iff.mpr (varInt_ne_nil h),
    Base128.length_encode (ioWriteVarIntU64_ok h)⟩

/-- **A stream is decoded as its bytes are.** -/
theorem ioReadVarIntU64_ok_iff {this : IoReadState} (h : this.Valid) {value : ℕ} {rest : Bytes} :
    cvtUInt64FromVarInt128 this.bytes = .ok (value, rest) ↔
      ∃ this', this.ioReadVarIntU64 = .ok (value, this') ∧ this'.Valid ∧ this'.bytes = rest := by
  have hread := this.ioReadVarIntU64_bytes h
  refine (Base128.decode_ok_iff _ _ _ _).trans (?_ : ioReadVarIntU64.run this.bytes = _ ↔ _)
  cases hrun : ioReadVarIntU64.run this.bytes with
  | error error =>
    rw [hrun] at hread
    refine ⟨nofun, fun ⟨this', hok, _⟩ => ?_⟩
    cases hread.symm.trans hok
  | ok decoded =>
    rw [hrun] at hread
    obtain ⟨this₁, hok₁, hvalid₁, hbytes₁⟩ := hread
    constructor
    · intro heq
      rw [Except.ok.inj heq] at hok₁ hbytes₁
      exact ⟨this₁, hok₁, hvalid₁, hbytes₁⟩
    · rintro ⟨this', hok, -, rfl⟩
      obtain ⟨hvalue, rfl⟩ := ok_inj (hok₁.symm.trans hok)
      rw [hbytes₁, ← hvalue]

/-- A stream is rejected if its first ten bytes all say that more follow, or if
it ends before. -/
theorem ioReadVarIntU64_error_iff {this : IoReadState} (h : this.Valid) :
    (∃ error, this.ioReadVarIntU64 = .error error) ↔
      ∀ byte ∈ this.bytes.take CVT_VARINT128_BUFFER_SIZE, ¬byte < 0x80 := by
  have hread := this.ioReadVarIntU64_bytes h
  refine Iff.trans ?_ (Base128.decode_error_iff _ _ : (∃ error, ioReadVarIntU64.run _ = .error error) ↔ _)
  cases hrun : ioReadVarIntU64.run this.bytes with
  | error error =>
    rw [hrun] at hread
    exact ⟨fun _ => ⟨error, hrun⟩, fun _ => ⟨error, hread⟩⟩
  | ok decoded =>
    rw [hrun] at hread
    obtain ⟨this₁, hok₁, -⟩ := hread
    exact ⟨fun ⟨_, herror⟩ => absurd (hok₁.symm.trans herror) nofun,
      fun ⟨_, herror⟩ => absurd (hrun.symm.trans herror) nofun⟩

/-- **Variable-length integers are read back**, from a buffer and from a stream;
both decoders agree on all bytes; and signed integers survive the ZigZag
encoding. -/
theorem varInt128_same :
    (∀ (value : UInt64) (bufferSize : ℕ), CVT_VARINT128_BUFFER_SIZE ≤ bufferSize →
      ∃ bytes, cvtUInt64ToVarInt128 bufferSize value.toNat = .ok bytes ∧
        ioWriteVarIntU64 value.toNat = .ok bytes ∧
        1 ≤ bytes.length ∧ bytes.length ≤ 10 ∧
        ∀ rest, cvtUInt64FromVarInt128 (bytes ++ rest) = .ok (value.toNat, rest) ∧
          ∀ this : IoReadState, this.Valid → this.bytes = bytes ++ rest →
            ∃ this', this.ioReadVarIntU64 = .ok (value.toNat, this') ∧ this'.Valid ∧
              this'.bytes = rest) ∧
    (∀ this : IoReadState, this.Valid →
      (∀ value rest, cvtUInt64FromVarInt128 this.bytes = .ok (value, rest) ↔
        ∃ this', this.ioReadVarIntU64 = .ok (value, this') ∧ this'.Valid ∧ this'.bytes = rest) ∧
      ((∃ error, cvtUInt64FromVarInt128 this.bytes = .error error) ↔
        ∀ byte ∈ this.bytes.take 10, ¬byte < 0x80) ∧
      ((∃ error, this.ioReadVarIntU64 = .error error) ↔
        ∀ byte ∈ this.bytes.take 10, ¬byte < 0x80)) ∧
    ∀ value : Int64, cvtInt64FromZigZag (cvtInt64ToZigZag value.toInt) = value.toInt := by
  refine ⟨fun value bufferSize hsize => ?_, fun this h => ⟨fun value rest => ioReadVarIntU64_ok_iff h,
    Base128.decode_error_iff _ _, ioReadVarIntU64_error_iff h⟩,
    fun value => cvtInt64FromZigZag_to value.le_toInt value.toInt_lt⟩
  have hvalue : value.toNat < 2 ^ 64 := value.toNat_lt
  obtain ⟨hwrite, hpos, hle⟩ := cvtUInt64ToVarInt128_length hvalue hsize
  refine ⟨varInt value.toNat, hwrite, ioWriteVarIntU64_ok hvalue, hpos, hle, fun rest => ?_⟩
  have hbuffer := cvtUInt64FromVarInt128_varInt hvalue rest
  refine ⟨hbuffer, fun this h hbytes => (ioReadVarIntU64_ok_iff h).mp ?_⟩
  rw [hbytes]
  exact hbuffer

/-- The number 300 takes two bytes. It is read from a stream that returns them
one at a time. -/
theorem varInt128_same_sample :
    ∃ this', (ioReadNew true 1 [[0xac], [0x02], [7]]).ioReadVarIntU64 = .ok (300, this') ∧
      this'.Valid ∧ this'.bytes = [7] :=
  ((varInt128_same.2.1 _ (IoReadState.ioReadNew_valid true 1 [[0xac], [0x02], [7]])).1 300 [7]).mp rfl

end PgxBackup
