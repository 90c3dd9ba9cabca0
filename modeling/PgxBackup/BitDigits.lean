import Mathlib.Algebra.Order.Ring.Nat
import Mathlib.Data.Nat.Bitwise
import Mathlib.Data.Nat.Digits.Defs
import Mathlib.Tactic.Ring

/-!
# Digits packed into a word

Digits of a fixed number of bits are put into a word with shifts and ors, the
first one lowest. As long as they fit next to each other, the ors are sums and
the word is the number with these digits.
-/

namespace BitDigits

/-- **An or of bits below and bits from `k` on is a sum.** -/
theorem or_two_pow_mul {a k : ℕ} (h : a < 2 ^ k) (b : ℕ) : a ||| 2 ^ k * b = a + 2 ^ k * b := by
  rw [Nat.or_comm, ← Nat.two_pow_add_eq_or_of_lt h, Nat.add_comm]

/-- **A mask of `w` bits from `k` on cuts these bits out.** -/
theorem and_mask (n k w : ℕ) : n &&& 2 ^ k * (2 ^ w - 1) = 2 ^ k * (n / 2 ^ k % 2 ^ w) := by
  refine Nat.eq_of_testBit_eq fun i => ?_
  rw [Nat.testBit_and, Nat.testBit_two_pow_mul, Nat.testBit_two_pow_mul, Nat.testBit_two_pow_sub_one,
    Nat.testBit_mod_two_pow, Nat.testBit_div_two_pow]
  by_cases hk : k ≤ i
  · rw [Nat.sub_add_cancel hk, decide_eq_true hk, Bool.true_and, Bool.true_and, Bool.and_comm]
  · rw [decide_eq_false hk, Bool.false_and, Bool.false_and, Bool.and_false]

/-- The digits of a number, taken off its low end until nothing or no room is
left. -/
def unpack (w : ℕ) : ℕ → ℕ → List ℕ
  | 0, _ => []
  | size + 1, n => n % 2 ^ w :: if size = 0 ∨ n / 2 ^ w = 0 then [] else unpack w size (n / 2 ^ w)

theorem unpack_eq_digits {w size n : ℕ} (hw : w ≠ 0) (hpos : 0 < n) (hlt : n < 2 ^ (w * size)) :
    unpack w size n = Nat.digits (2 ^ w) n := by
  have hbase : 1 < 2 ^ w := Nat.one_lt_two_pow hw
  induction size generalizing n with
  | zero => exact absurd hlt (by simpa using hpos.ne')
  | succ size ih =>
    rw [Nat.digits_def' hbase hpos]
    unfold unpack
    refine congrArg _ ?_
    have hdiv : n / 2 ^ w < 2 ^ (w * size) := by
      refine Nat.div_lt_of_lt_mul ?_
      rw [← Nat.pow_add, Nat.add_comm]
      exact hlt
    by_cases hzero : n / 2 ^ w = 0
    · rw [if_pos (.inr hzero), hzero, Nat.digits_zero]
    · have hsize : size ≠ 0 := by
        rintro rfl
        exact hzero (by simpa using hdiv)
      rw [if_neg (not_or.mpr ⟨hsize, hzero⟩)]
      exact ih (Nat.pos_of_ne_zero hzero) hdiv

/-- Digits without a zero are read back from the number they make. -/
theorem unpack_ofDigits {w size : ℕ} (hw : w ≠ 0) {digits : List ℕ} (hne : digits ≠ [])
    (hdigits : ∀ digit ∈ digits, 0 < digit ∧ digit < 2 ^ w) (hsize : digits.length ≤ size) :
    unpack w size (Nat.ofDigits (2 ^ w) digits) = digits := by
  have hbase : 1 < 2 ^ w := Nat.one_lt_two_pow hw
  have hlast : ∀ h : digits ≠ [], digits.getLast h ≠ 0 := fun h => (hdigits _ (List.getLast_mem h)).1.ne'
  have hinv := Nat.digits_ofDigits _ hbase digits (fun digit h => (hdigits digit h).2) hlast
  rw [unpack_eq_digits hw, hinv]
  · refine Nat.pos_of_ne_zero fun hzero => hne ?_
    rw [← hinv, hzero, Nat.digits_zero]
  · refine lt_of_lt_of_le (Nat.ofDigits_lt_base_pow_length hbase fun digit h => (hdigits digit h).2) ?_
    rw [← Nat.pow_mul]
    exact Nat.pow_le_pow_right (by decide) (Nat.mul_le_mul_left w hsize)

end BitDigits
