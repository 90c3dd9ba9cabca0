import Mathlib.Data.List.Basic
import Mathlib.Data.Nat.Bitwise

/-!
# Flags in a word

A word has a bit for each flag of a list. Each flag is set under a condition of
its own, and reading its bit gives the condition back.
-/

namespace Flags

variable {ι : Type} {bit : ι → ℕ} {set : ι → Bool} {flags : List ι}

/-- The word in which the flags are set one after the other. -/
def word (bit : ι → ℕ) (set : ι → Bool) (flags : List ι) : ℕ :=
  flags.foldl (fun flag f => if set f then flag ||| 1 <<< bit f else flag) 0

theorem testBit_foldl (flag i : ℕ) :
    (flags.foldl (fun flag f => if set f then flag ||| 1 <<< bit f else flag) flag).testBit i
      = (flag.testBit i || flags.any fun f => set f && bit f == i) := by
  induction flags generalizing flag with
  | nil => exact (Bool.or_false _).symm
  | cons f flags ih =>
    rw [List.foldl_cons, ih, List.any_cons, ← Bool.or_assoc]
    congr 1
    cases set f with
    | true =>
      rw [if_pos rfl, Nat.testBit_or, Nat.one_shiftLeft, Nat.testBit_two_pow, Bool.true_and]
      rfl
    | false => rw [if_neg Bool.false_ne_true, Bool.false_and, Bool.or_false]

/-- **Each bit is read back.** -/
theorem testBit_word (hbit : ∀ f ∈ flags, ∀ g ∈ flags, bit f = bit g → f = g) {f : ι} (hf : f ∈ flags) :
    (word bit set flags).testBit (bit f) = set f := by
  unfold word
  rw [testBit_foldl, Nat.zero_testBit, Bool.false_or, Bool.eq_iff_iff, List.any_eq_true]
  constructor
  · rintro ⟨g, hg, h⟩
    rw [Bool.and_eq_true, beq_iff_eq] at h
    rw [← hbit g hg f hf h.2]
    exact h.1
  · intro h
    exact ⟨f, hf, by rw [h, beq_self_eq_true]; rfl⟩

theorem word_lt {n : ℕ} (hbit : ∀ f ∈ flags, bit f < n) : word bit set flags < 2 ^ n := by
  refine Nat.lt_pow_two_of_testBit _ fun i hi => ?_
  unfold word
  rw [testBit_foldl, Nat.zero_testBit, Bool.false_or, List.any_eq_false]
  intro f hf
  have hne : bit f ≠ i := (lt_of_lt_of_le (hbit f hf) hi).ne
  simp [hne]

end Flags
