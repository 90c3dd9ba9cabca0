import Mathlib.Data.List.Chain
import Mathlib.Data.List.Range
import Mathlib.Tactic.Common

/-!
# Numbers in ranges

An increasing list of numbers is put together in ranges of neighbours. The
ranges stand for the numbers, and they are as long as they can be: between two
of them there is a number that is not in the list.
-/

namespace Ranges

/-- The numbers from the first to the last. -/
def range (r : ℕ × ℕ) : List ℕ := List.range' r.1 (r.2 + 1 - r.1)

/-- The numbers of some ranges. -/
def expand (ranges : List (ℕ × ℕ)) : List ℕ := ranges.flatMap range

/-- **Ranges that cannot be longer**: none is empty, and there is a gap between
two that follow each other. -/
structure Maximal (ranges : List (ℕ × ℕ)) : Prop where
  nonempty : ∀ r ∈ ranges, r.1 ≤ r.2
  gap : ranges.IsChain (fun r r' => r.2 + 1 < r'.1)

/-- Put numbers together, after a range that is not finished. -/
def compactFrom (first last : ℕ) : List ℕ → List (ℕ × ℕ)
  | [] => [(first, last)]
  | n :: rest => if n = last + 1 then compactFrom first n rest else (first, last) :: compactFrom n n rest

/-- Put numbers together. -/
def compact : List ℕ → List (ℕ × ℕ)
  | [] => []
  | n :: rest => compactFrom n n rest

variable {first last : ℕ} {l : List ℕ}

theorem range_append (h : first ≤ last) : range (first, last) ++ [last + 1] = range (first, last + 1) := by
  have hlast : last + 1 = first + 1 * (last + 1 - first) := by omega
  unfold range
  rw [show last + 1 + 1 - first = (last + 1 - first) + 1 by omega, List.range'_concat, ← hlast]

theorem expand_compactFrom (h : first ≤ last) (l : List ℕ) :
    expand (compactFrom first last l) = range (first, last) ++ l := by
  induction l generalizing first last with
  | nil => rfl
  | cons n rest ih =>
    unfold compactFrom
    by_cases hn : n = last + 1
    · subst hn
      rw [if_pos rfl, ih (Nat.le_succ_of_le h), ← range_append h, List.append_assoc]
      rfl
    · have hsingle : range (n, n) = [n] := by
        unfold range
        rw [Nat.add_sub_cancel_left]
        rfl
      rw [if_neg hn]
      show range (first, last) ++ expand (compactFrom n n rest) = _
      rw [ih le_rfl, hsingle]
      rfl

/-- **The ranges stand for the numbers.** -/
theorem expand_compact (l : List ℕ) : expand (compact l) = l := by
  cases l with
  | nil => rfl
  | cons n rest =>
    have hsingle : range (n, n) = [n] := by
      unfold range
      rw [Nat.add_sub_cancel_left]
      rfl
    show expand (compactFrom n n rest) = _
    rw [expand_compactFrom le_rfl, hsingle]
    rfl

theorem maximal_compactFrom (h : first ≤ last) (hl : (last :: l).Pairwise (· < ·)) :
    Maximal (compactFrom first last l) ∧ ∀ r ∈ (compactFrom first last l).head?, r.1 = first := by
  induction l generalizing first last with
  | nil =>
    refine ⟨⟨fun r hr => ?_, List.IsChain.singleton _⟩, fun r hr => ?_⟩
    · obtain rfl := List.mem_singleton.mp hr
      exact h
    · cases hr
      rfl
  | cons n rest ih =>
    have hlt : last < n := List.rel_of_pairwise_cons hl List.mem_cons_self
    have hrest := (List.pairwise_cons.mp hl).2
    unfold compactFrom
    by_cases hn : n = last + 1
    · rw [if_pos hn]
      exact ih (by omega) hrest
    · rw [if_neg hn]
      obtain ⟨hmaximal, hhead⟩ := @ih n n le_rfl hrest
      refine ⟨⟨fun r hr => ?_, ?_⟩, fun r hr => ?_⟩
      · rcases List.mem_cons.mp hr with rfl | hr
        · exact h
        · exact hmaximal.nonempty r hr
      · refine List.isChain_cons.mpr ⟨fun r hr => ?_, hmaximal.gap⟩
        rw [hhead r hr]
        show last + 1 < n
        omega
      · cases hr
        rfl

/-- **The ranges are as long as they can be.** -/
theorem maximal_compact (h : l.Pairwise (· < ·)) : Maximal (compact l) := by
  cases l with
  | nil => exact ⟨fun r hr => absurd hr List.not_mem_nil, List.IsChain.nil⟩
  | cons n rest => exact (maximal_compactFrom le_rfl h).1

theorem compact_eq_nil : compact l = [] ↔ l = [] := by
  refine ⟨fun h => ?_, fun h => by rw [h]; rfl⟩
  have hexpand := expand_compact l
  rw [h] at hexpand
  exact hexpand.symm

end Ranges
