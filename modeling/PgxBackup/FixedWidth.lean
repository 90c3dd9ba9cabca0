import Mathlib.Algebra.Order.Group.Nat
import Mathlib.Data.List.Lex
import Mathlib.Tactic.Ring

/-!
# Numbers with a fixed number of digits

A number written with a fixed number of digits, the highest first, in any base
and with any digits. What is written next to each other is written as one
number, and the digits of two numbers are in the order of the numbers.
-/

namespace FixedWidth

variable {α : Type} (digit : ℕ → α) (b : ℕ)

/-- The lowest digits of a number. -/
def digits : ℕ → ℕ → List α
  | 0, _ => []
  | w + 1, n => digit (n / b ^ w % b) :: digits w n

@[simp] theorem length_digits (w n : ℕ) : (digits digit b w n).length = w := by
  induction w with
  | zero => rfl
  | succ w ih => exact congrArg (· + 1) ih

variable {w n : ℕ} {value : α → ℕ}

theorem mem_digits (hb : 0 < b) {c : α} (hc : c ∈ digits digit b w n) :
    ∃ i < b, c = digit i := by
  induction w with
  | zero => exact absurd hc List.not_mem_nil
  | succ w ih =>
    cases List.mem_cons.mp hc with
    | inl heq => exact ⟨_, Nat.mod_lt _ hb, heq⟩
    | inr hc => exact ih hc

theorem digits_add_mul (w n m : ℕ) : digits digit b w (n + b ^ w * m) = digits digit b w n := by
  induction w generalizing m with
  | zero => rfl
  | succ w ih =>
    have hpow : n + b ^ (w + 1) * m = n + b ^ w * (b * m) := by ring
    unfold digits
    rw [hpow, ih]
    refine congrArg (digit · :: _) ?_
    rcases Nat.eq_zero_or_pos b with hb | hb
    · rw [hb, Nat.zero_mul, Nat.mul_zero, Nat.add_zero]
    · rw [Nat.add_mul_div_left _ _ (Nat.pow_pos hb), Nat.add_mul_mod_self_left]

/-- **Digits next to each other** are the digits of one number. -/
theorem digits_append (v w m : ℕ) (hn : n < b ^ w) :
    digits digit b (v + w) (m * b ^ w + n) = digits digit b v m ++ digits digit b w n := by
  induction v with
  | zero =>
    rw [Nat.zero_add, Nat.add_comm (m * b ^ w), Nat.mul_comm, digits_add_mul]
    rfl
  | succ v ih =>
    have hpos : 0 < b ^ w := Nat.zero_lt_of_lt hn
    have hdiv : (m * b ^ w + n) / b ^ (v + w) = m / b ^ v := by
      rw [Nat.add_comm v w, Nat.pow_add, ← Nat.div_div_eq_div_mul, Nat.mul_comm m,
        Nat.mul_add_div hpos, Nat.div_eq_of_lt hn, Nat.add_zero]
    rw [Nat.succ_add]
    show digit _ :: digits digit b (v + w) _ = _
    rw [ih, hdiv]
    rfl

variable {digit b}

/-- **The order of the digits is the order of the numbers**, if single digits
are in the order of what they stand for. -/
theorem digits_lt_iff [LinearOrder α]
    (hdigit : ∀ i < b, ∀ j < b, digit i < digit j ↔ i < j) :
    ∀ {m n : ℕ}, m < b ^ w → n < b ^ w → (digits digit b w m < digits digit b w n ↔ m < n) := by
  induction w with
  | zero =>
    intro m n hm hn
    rw [Nat.lt_one_iff.mp hm, Nat.lt_one_iff.mp hn]
    exact ⟨fun h => absurd h (lt_irrefl _), fun h => absurd h (lt_irrefl _)⟩
  | succ w ih =>
    intro m n hm hn
    have hpos : 0 < b ^ w := by
      refine Nat.pos_of_ne_zero fun h => ?_
      rw [Nat.pow_succ, h, Nat.zero_mul] at hm
      exact absurd hm (Nat.not_lt_zero _)
    have hhigh : ∀ {k : ℕ}, k < b ^ (w + 1) → k / b ^ w < b := fun hk =>
      Nat.div_lt_of_lt_mul (by rwa [Nat.pow_succ] at hk)
    have hlow : ∀ k : ℕ, digits digit b w k = digits digit b w (k % b ^ w) := by
      intro k
      rw [← digits_add_mul digit b w (k % b ^ w) (k / b ^ w), Nat.mod_add_div]
    have hsame : digit (m / b ^ w) = digit (n / b ^ w) ↔ m / b ^ w = n / b ^ w := by
      have hlt := hdigit _ (hhigh hm) _ (hhigh hn)
      have hgt := hdigit _ (hhigh hn) _ (hhigh hm)
      refine ⟨fun h => ?_, fun h => congrArg _ h⟩
      rw [h] at hlt hgt
      exact Nat.le_antisymm (not_lt.mp fun h => lt_irrefl _ (hgt.mpr h))
        (not_lt.mp fun h => lt_irrefl _ (hlt.mpr h))
    show digit _ :: digits digit b w m < digit _ :: digits digit b w n ↔ _
    rw [List.cons_lt_cons_iff, Nat.mod_eq_of_lt (hhigh hm), Nat.mod_eq_of_lt (hhigh hn),
      hdigit _ (hhigh hm) _ (hhigh hn), hsame, hlow m, hlow n,
      ih (Nat.mod_lt _ hpos) (Nat.mod_lt _ hpos)]
    -- the numbers are compared by quotient and remainder
    have hdm := Nat.div_add_mod m (b ^ w)
    have hdn := Nat.div_add_mod n (b ^ w)
    constructor
    · rintro (hlt | ⟨heq, hlt⟩)
      · exact Nat.lt_of_div_lt_div hlt
      · rw [← hdm, ← hdn, heq]
        exact Nat.add_lt_add_left hlt _
    · intro hlt
      rcases Nat.lt_or_eq_of_le (Nat.div_le_div_right hlt.le : m / b ^ w ≤ n / b ^ w) with hq | hq
      · exact Or.inl hq
      · refine Or.inr ⟨hq, ?_⟩
        rw [← hdm, ← hdn, hq] at hlt
        exact Nat.lt_of_add_lt_add_left hlt

theorem digits_inj [LinearOrder α] (hdigit : ∀ i < b, ∀ j < b, digit i < digit j ↔ i < j)
    {m : ℕ} (hm : m < b ^ w) (hn : n < b ^ w) :
    digits digit b w m = digits digit b w n ↔ m = n := by
  refine ⟨fun h => ?_, fun h => congrArg _ h⟩
  refine Nat.le_antisymm (not_lt.mp fun hlt => ?_) (not_lt.mp fun hlt => ?_)
  · exact absurd h.symm (ne_of_lt ((digits_lt_iff hdigit hn hm).mpr hlt))
  · exact absurd h (ne_of_lt ((digits_lt_iff hdigit hm hn).mpr hlt))

/-- The number that digits stand for. -/
def ofDigits (value : α → ℕ) (b : ℕ) (s : List α) : ℕ :=
  s.foldl (fun n c => n * b + value c) 0

theorem ofDigits_foldl (value : α → ℕ) (b : ℕ) (s : List α) (acc : ℕ) :
    s.foldl (fun n c => n * b + value c) acc = acc * b ^ s.length + ofDigits value b s := by
  induction s generalizing acc with
  | nil => exact (Nat.mul_one acc).symm
  | cons c s ih =>
    show s.foldl _ (acc * b + value c) = _ + s.foldl _ (0 * b + value c)
    rw [ih, ih (0 * b + value c), List.length_cons]
    ring

theorem ofDigits_cons (value : α → ℕ) (b : ℕ) (c : α) (s : List α) :
    ofDigits value b (c :: s) = value c * b ^ s.length + ofDigits value b s := by
  show s.foldl _ (0 * b + value c) = _
  rw [ofDigits_foldl, Nat.zero_mul, Nat.zero_add]

/-- **Digits are read back.** -/
theorem ofDigits_digits (hvalue : ∀ i < b, value (digit i) = i) (hb : 0 < b)
    (w n : ℕ) : ofDigits value b (digits digit b w n) = n % b ^ w := by
  induction w with
  | zero => exact (Nat.mod_one n).symm
  | succ w ih =>
    unfold digits
    rw [ofDigits_cons, ih, length_digits, hvalue _ (Nat.mod_lt _ hb), Nat.mod_pow_succ]
    ring

theorem ofDigits_lt {s : List α} (hvalue : ∀ c ∈ s, value c < b) :
    ofDigits value b s < b ^ s.length := by
  induction s with
  | nil => exact Nat.one_pos
  | cons c s ih =>
    have hc : value c + 1 ≤ b := hvalue c List.mem_cons_self
    have hs := ih fun c hc => hvalue c (List.mem_cons_of_mem _ hc)
    rw [ofDigits_cons, List.length_cons]
    calc value c * b ^ s.length + ofDigits value b s
        < value c * b ^ s.length + b ^ s.length := Nat.add_lt_add_left hs _
      _ = b ^ s.length * (value c + 1) := by ring
      _ ≤ b ^ (s.length + 1) := Nat.mul_le_mul_left _ hc

/-- **Digits are written again** as they were read. -/
theorem digits_ofDigits {s : List α}
    (hvalue : ∀ c ∈ s, value c < b ∧ digit (value c) = c) :
    digits digit b s.length (ofDigits value b s) = s := by
  induction s with
  | nil => rfl
  | cons c s ih =>
    have hs : ∀ c ∈ s, value c < b ∧ digit (value c) = c :=
      fun c hc => hvalue c (List.mem_cons_of_mem _ hc)
    have hlt := ofDigits_lt fun c hc => (hs c hc).1
    have ⟨hc, hdigit⟩ := hvalue c List.mem_cons_self
    have hdiv : ofDigits value b (c :: s) / b ^ s.length = value c := by
      rw [ofDigits_cons, Nat.mul_comm, Nat.mul_add_div (Nat.zero_lt_of_lt hlt), Nat.div_eq_of_lt hlt,
        Nat.add_zero]
    show digit _ :: digits digit b s.length _ = _
    rw [hdiv, Nat.mod_eq_of_lt hc, hdigit, ofDigits_cons, Nat.add_comm, Nat.mul_comm, digits_add_mul,
      ih hs]

end FixedWidth
