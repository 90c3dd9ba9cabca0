import Mathlib.Algebra.Order.Group.Nat
import Mathlib.Tactic.Ring

/-!
# Integers as sequences of bytes and bits

Three ways to store integers compactly, over any width.

* *Base 128*: seven bits a byte, the lowest first; every byte but the last
  has its high bit set. Encoder and decoder are bounded by a number of bytes,
  and the decoder drops the bits that do not fit the width.
* *ZigZag*: signed integers as unsigned ones, so that small absolute values
  are small numbers.
* *Flags*: a number shifted to the left with flags in the bits below.
-/

namespace Base128

/-! ## Base 128 -/

section Bytes

variable {ε : Type} (overflow eof unterminated : ε)

/-- Encode into at most the given number of bytes. -/
def encode : ℕ → ℕ → Except ε (List UInt8)
  | 0, _ => .error overflow
  | n + 1, value =>
    if value ≥ 0x80 then
      (encode n (value >>> 7)).map (fun bytes => (UInt8.ofNat value ||| 0x80) :: bytes)
    else .ok [UInt8.ofNat value]

/-- Decode at most the given number of bytes, from the index of the next
byte and what has been decoded so far. -/
def decode (width : ℕ) : ℕ → ℕ → ℕ → List UInt8 → Except ε (ℕ × List UInt8)
  | 0, _, _, _ => .error unterminated
  | _ + 1, _, _, [] => .error eof
  | n + 1, idx, result, byte :: rest =>
    let result := result ||| ((byte.toNat &&& 0x7f) <<< (7 * idx)) % 2 ^ width
    if byte < 0x80 then .ok (result, rest) else decode width n (idx + 1) result rest

section

variable {overflow : ε} {n value : ℕ} {bytes : List UInt8} (h : encode overflow n value = .ok bytes)
include h

theorem length_encode : bytes.length ≤ n := by
  induction n generalizing value bytes with
  | zero => cases h
  | succ n ih =>
    unfold encode at h
    split at h
    · cases hrest : encode overflow n (value >>> 7) with
      | error error =>
        rw [hrest] at h
        cases h
      | ok rest =>
        rw [hrest] at h
        cases h
        exact Nat.succ_le_succ (ih hrest)
    · cases h
      exact Nat.succ_le_succ (Nat.zero_le n)

theorem encode_of_le {m : ℕ} (hle : n ≤ m) : encode overflow m value = .ok bytes := by
  induction n generalizing m value bytes with
  | zero => cases h
  | succ n ih =>
    obtain ⟨m, rfl⟩ := Nat.exists_eq_succ_of_ne_zero (Nat.ne_of_gt (lt_of_lt_of_le n.succ_pos hle))
    unfold encode at h ⊢
    split at h
    · rename_i hbig
      rw [if_pos hbig]
      cases hrest : encode overflow n (value >>> 7) with
      | error error =>
        rw [hrest] at h
        cases h
      | ok rest =>
        rw [hrest] at h
        rw [ih hrest (Nat.le_of_succ_le_succ hle)]
        exact h
    · rename_i hsmall
      rw [if_neg hsmall]
      exact h

end

/-- Decoders that differ in their errors decode the same bytes. -/
theorem decode_ok_iff {ε' : Type} (eof' unterminated' : ε') {width n idx result : ℕ}
    {bytes : List UInt8} {decoded : ℕ × List UInt8} :
    decode eof unterminated width n idx result bytes = .ok decoded ↔
      decode eof' unterminated' width n idx result bytes = .ok decoded := by
  induction n generalizing idx result bytes with
  | zero => exact ⟨nofun, nofun⟩
  | succ n ih =>
    cases bytes with
    | nil => exact ⟨nofun, nofun⟩
    | cons byte rest =>
      unfold decode
      split
      · rw [Except.ok.injEq, Except.ok.injEq]
      · exact ih

/-- **Rejected bytes** have no last byte within the bound. -/
theorem decode_error_iff {width n idx result : ℕ} {bytes : List UInt8} :
    (∃ error, decode eof unterminated width n idx result bytes = .error error) ↔
      ∀ byte ∈ bytes.take n, ¬byte < 0x80 := by
  induction n generalizing idx result bytes with
  | zero => simp [decode]
  | succ n ih =>
    cases bytes with
    | nil => simp [decode]
    | cons byte rest =>
      unfold decode
      rw [List.take_succ_cons, List.forall_mem_cons]
      split
      · rename_i hlast
        exact ⟨nofun, fun h => absurd hlast h.1⟩
      · rename_i hmore
        rw [ih]
        exact (and_iff_right hmore).symm

theorem toNat_ofNat_or (value : ℕ) :
    (UInt8.ofNat value ||| 0x80).toNat = value % 128 + 128 := by
  have hbyte : ∀ byte < 256, byte ||| 128 = byte % 128 + 128 := by decide +kernel
  rw [UInt8.toNat_or, UInt8.toNat_ofNat']
  show value % 256 ||| 128 = _
  rw [hbyte _ (Nat.mod_lt _ (by decide))]
  omega

theorem and_low (byte : ℕ) : byte &&& 0x7f = byte % 128 :=
  Nat.and_two_pow_sub_one_eq_mod byte 7

/-- Bits above those of the value so far. -/
theorem or_shift {result digit idx : ℕ} (h : result < 2 ^ (7 * idx)) :
    result ||| digit * 2 ^ (7 * idx) = result + digit * 2 ^ (7 * idx) := by
  rw [← Nat.shiftLeft_eq, Nat.or_comm, ← Nat.shiftLeft_add_eq_or_of_lt h]
  exact Nat.add_comm _ _

/-- **Decoding what was encoded** gives the value back, on top of what has
been decoded before, and leaves what follows. -/
theorem decode_encode (width : ℕ) (n value : ℕ) (hvalue : value < 2 ^ (7 * n)) (hn : 0 < n) :
    ∃ bytes, encode overflow n value = .ok bytes ∧ bytes ≠ [] ∧
      ∀ idx result rest, result < 2 ^ (7 * idx) →
        result + value * 2 ^ (7 * idx) < 2 ^ width →
        decode eof unterminated width n idx result (bytes ++ rest)
          = .ok (result + value * 2 ^ (7 * idx), rest) := by
  induction n generalizing value with
  | zero => exact absurd hn (by omega)
  | succ n ih =>
    unfold encode
    by_cases hbig : value ≥ 0x80
    · rw [if_pos hbig]
      have hn' : 0 < n := by
        by_contra hzero
        have : n = 0 := by omega
        subst this
        omega
      have hdiv : value >>> 7 = value / 128 := Nat.shiftRight_eq_div_pow value 7
      have hlt : value / 128 < 2 ^ (7 * n) := by
        rw [Nat.div_lt_iff_lt_mul (by decide)]
        calc value < 2 ^ (7 * (n + 1)) := hvalue
          _ = 2 ^ (7 * n) * 128 := by ring
      obtain ⟨bytes, hok, -, hdecode⟩ := ih (value / 128) hlt hn'
      rw [hdiv, hok]
      refine ⟨_, rfl, by simp, fun idx result rest hresult hwidth => ?_⟩
      have hvalue' : result + value * 2 ^ (7 * idx)
          = result + value % 128 * 2 ^ (7 * idx) + value / 128 * 2 ^ (7 * (idx + 1)) := by
        have hpow : 2 ^ (7 * (idx + 1)) = 128 * 2 ^ (7 * idx) := by ring
        calc result + value * 2 ^ (7 * idx)
            = result + (value % 128 + 128 * (value / 128)) * 2 ^ (7 * idx) := by
              rw [Nat.mod_add_div]
          _ = _ := by rw [hpow]; ring
      have hdigit : value % 128 * 2 ^ (7 * idx) < 2 ^ width := by
        refine lt_of_le_of_lt ?_ hwidth
        rw [hvalue']
        omega
      have hbyte : ¬(UInt8.ofNat value ||| 0x80) < 0x80 := by
        rw [UInt8.lt_iff_toNat_lt, toNat_ofNat_or]
        show ¬value % 128 + 128 < 128
        omega
      have hlow : (value % 128 + 128) % 128 = value % 128 := by omega
      rw [List.cons_append]
      unfold decode
      rw [if_neg hbyte, toNat_ofNat_or, and_low, hlow, Nat.shiftLeft_eq, Nat.mod_eq_of_lt hdigit,
        or_shift hresult, hdecode (idx + 1) _ rest, ← hvalue']
      · have hmod : value % 128 < 128 := Nat.mod_lt _ (by decide)
        calc result + value % 128 * 2 ^ (7 * idx)
            < 2 ^ (7 * idx) + value % 128 * 2 ^ (7 * idx) := by omega
          _ = (value % 128 + 1) * 2 ^ (7 * idx) := by ring
          _ ≤ 128 * 2 ^ (7 * idx) := Nat.mul_le_mul_right _ hmod
          _ = 2 ^ (7 * (idx + 1)) := by ring
      · rw [← hvalue']
        exact hwidth
    · rw [if_neg hbig]
      refine ⟨_, rfl, by simp, fun idx result rest hresult hwidth => ?_⟩
      have hnat : (UInt8.ofNat value).toNat = value := by
        rw [UInt8.toNat_ofNat']
        omega
      have hbyte : UInt8.ofNat value < 0x80 := by
        rw [UInt8.lt_iff_toNat_lt, hnat]
        show value < 128
        omega
      have hdigit : value * 2 ^ (7 * idx) < 2 ^ width := by omega
      have hlow : value % 128 = value := Nat.mod_eq_of_lt (by omega)
      show decode eof unterminated width (n + 1) idx result (UInt8.ofNat value :: rest) = _
      unfold decode
      rw [if_pos hbyte, hnat, and_low, hlow, Nat.shiftLeft_eq, Nat.mod_eq_of_lt hdigit,
        or_shift hresult]

end Bytes

/-! ## ZigZag -/

section ZigZag

variable {w : ℕ}

/-- Twice the absolute value, less one for a negative one. -/
def zigZag (value : BitVec w) : BitVec w := (value <<< 1) ^^^ value.sshiftRight (w - 1)

/-- The value that a number stands for. -/
def unZigZag (value : BitVec w) : BitVec w := (value >>> 1) ^^^ (~~~(value &&& 1) + 1)

section

variable (value : BitVec w)

theorem sshiftRight_sign :
    value.sshiftRight (w - 1) = if value.msb then BitVec.allOnes w else 0#w := by
  ext i hi
  rw [BitVec.getElem_sshiftRight]
  cases hmsb : value.msb with
  | false =>
    simp only [Bool.false_eq_true, if_false, BitVec.getElem_zero]
    split
    · rename_i hlt
      have hzero : i = 0 := by omega
      subst hzero
      rw [← hmsb, BitVec.msb_eq_getLsbD_last]
      rfl
    · rfl
  | true =>
    simp only [if_true, BitVec.getElem_allOnes]
    split
    · rename_i hlt
      have hzero : i = 0 := by omega
      subst hzero
      rw [← hmsb, BitVec.msb_eq_getLsbD_last]
      rfl
    · rfl

theorem zigZag_of_msb : zigZag value = if value.msb then ~~~(value <<< 1) else value <<< 1 := by
  unfold zigZag
  rw [sshiftRight_sign]
  split
  · rw [BitVec.xor_allOnes]
  · rw [BitVec.xor_zero]

theorem unZigZag_of_bit :
    unZigZag value = if value.getLsbD 0 then ~~~(value >>> 1) else value >>> 1 := by
  have hbit : value &&& 1 = if value.getLsbD 0 then 1#w else 0#w := by
    ext i hi
    cases hvalue : value.getLsbD 0 with
    | false | true =>
      by_cases hzero : i = 0
      · subst hzero
        simp [← BitVec.getLsbD_eq_getElem, hvalue]
      · simp [BitVec.getElem_one, hzero]
  unfold unZigZag
  have hneg : ~~~(value &&& 1) + 1 = -(value &&& 1) := (BitVec.neg_eq_not_add _).symm
  rw [hneg, hbit]
  split
  · rw [BitVec.neg_one_eq_allOnes, BitVec.xor_allOnes]
  · rw [BitVec.neg_zero, BitVec.xor_zero]

/-- **ZigZag can be undone.** -/
theorem unZigZag_zigZag : unZigZag (zigZag value) = value := by
  rw [zigZag_of_msb, unZigZag_of_bit]
  cases hmsb : value.msb with
  | false =>
    rw [BitVec.msb_eq_getLsbD_last] at hmsb
    simp only [Bool.false_eq_true, if_false, BitVec.getLsbD_shiftLeft, Nat.zero_lt_one,
      decide_true, Bool.not_true, Bool.and_false, Bool.false_and]
    ext i hi
    rw [BitVec.getElem_ushiftRight, BitVec.getLsbD_shiftLeft]
    by_cases hlast : 1 + i < w
    · simp [hlast, BitVec.getLsbD_eq_getElem hi]
    · have heq : w - 1 = i := by omega
      rw [heq, BitVec.getLsbD_eq_getElem hi] at hmsb
      simp [hlast, hmsb]
  | true =>
    rw [BitVec.msb_eq_getLsbD_last] at hmsb
    have hw : 0 < w := by
      by_contra hzero
      have : w = 0 := by omega
      subst this
      simp at hmsb
    simp only [if_true, BitVec.getLsbD_not, BitVec.getLsbD_shiftLeft, hw, decide_true,
      Nat.zero_lt_one, Bool.not_true, Bool.and_false, Bool.false_and, Bool.not_false, Bool.and_self]
    ext i hi
    rw [BitVec.getElem_not, BitVec.getElem_ushiftRight, BitVec.getLsbD_not,
      BitVec.getLsbD_shiftLeft]
    by_cases hlast : 1 + i < w
    · simp [hlast, BitVec.getLsbD_eq_getElem hi]
    · have heq : w - 1 = i := by omega
      rw [heq, BitVec.getLsbD_eq_getElem hi] at hmsb
      simp [hlast, hmsb]

end

theorem msb_ofInt (hw : 0 < w) {x : ℤ} (hlow : -2 ^ (w - 1) ≤ x) (hhigh : x < 2 ^ (w - 1)) :
    (BitVec.ofInt w x).msb = decide (x < 0) := by
  rw [BitVec.msb_eq_toInt, BitVec.toInt_ofInt_eq_self hw hlow hhigh]

/-- **Small absolute values give small numbers.** -/
theorem toNat_zigZag (hw : 0 < w) {x : ℤ} (hlow : -2 ^ (w - 1) ≤ x) (hhigh : x < 2 ^ (w - 1)) :
    ((zigZag (BitVec.ofInt w x)).toNat : ℤ) = if 0 ≤ x then 2 * x else -2 * x - 1 := by
  have hpow : (2 : ℤ) ^ w = 2 * 2 ^ (w - 1) := by
    rw [← pow_succ', Nat.sub_add_cancel hw]
  have hpowNat : 2 ^ w = 2 * 2 ^ (w - 1) := by
    rw [← pow_succ', Nat.sub_add_cancel hw]
  rw [zigZag_of_msb, msb_ofInt hw hlow hhigh]
  by_cases hneg : x < 0
  · rw [if_pos (by simpa using hneg), if_neg (by omega), BitVec.toNat_not, BitVec.toNat_shiftLeft,
      BitVec.toNat_ofInt]
    have hmod : x % ((2 ^ w : ℕ) : ℤ) = x + 2 ^ w := by
      rw [← Int.add_emod_right]
      push_cast
      exact Int.emod_eq_of_lt (by omega) (by omega)
    obtain ⟨n, hn⟩ := Int.eq_ofNat_of_zero_le (show 0 ≤ x + 2 ^ w by omega)
    rw [hmod, hn, Int.toNat_natCast, Nat.shiftLeft_eq, pow_one]
    have hcast : ((2 ^ (w - 1) : ℕ) : ℤ) = 2 ^ (w - 1) := Int.natCast_pow 2 (w - 1)
    have hge : 2 ^ w ≤ n * 2 := by omega
    rw [Nat.mod_eq_sub_mod hge, Nat.mod_eq_of_lt (by omega)]
    omega
  · rw [if_neg (by simpa using hneg), if_pos (by omega), BitVec.toNat_shiftLeft,
      BitVec.toNat_ofInt]
    obtain ⟨n, rfl⟩ := Int.eq_ofNat_of_zero_le (show 0 ≤ x by omega)
    have hn : n < 2 ^ (w - 1) := by exact_mod_cast hhigh
    have hmod : (n : ℤ) % ((2 ^ w : ℕ) : ℤ) = n := by
      rw [← Int.natCast_mod, Nat.mod_eq_of_lt (by omega)]
    rw [hmod, Int.toNat_natCast, Nat.shiftLeft_eq, pow_one, Nat.mod_eq_of_lt (by omega)]
    push_cast
    omega

end ZigZag

/-! ## Flags below a number -/

section Flags

variable {n flags value mask : ℕ}

theorem or_shiftLeft_eq (h : flags < 2 ^ n) : flags ||| value <<< n = value * 2 ^ n + flags := by
  rw [Nat.or_comm, ← Nat.shiftLeft_add_eq_or_of_lt h, Nat.shiftLeft_eq]

theorem shiftRight_or_shiftLeft (h : flags < 2 ^ n) : (flags ||| value <<< n) >>> n = value := by
  rw [or_shiftLeft_eq h, Nat.shiftRight_eq_div_pow, Nat.add_comm, Nat.add_mul_div_right _ _
    (Nat.two_pow_pos n), Nat.div_eq_of_lt h, Nat.zero_add]

theorem and_or_shiftLeft (h : mask < 2 ^ n) : (flags ||| value <<< n) &&& mask = flags &&& mask := by
  refine Nat.eq_of_testBit_eq (fun i => ?_)
  rw [Nat.testBit_and, Nat.testBit_or, Nat.testBit_shiftLeft, Nat.testBit_and]
  by_cases hi : n ≤ i
  · have hmask : mask.testBit i = false :=
      Nat.testBit_lt_two_pow (lt_of_lt_of_le h (Nat.pow_le_pow_right (by decide) hi))
    simp [hmask]
  · simp [hi]

end Flags

end Base128
