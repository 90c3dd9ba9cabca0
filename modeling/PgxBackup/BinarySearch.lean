import Mathlib.Data.List.Pairwise
import Mathlib.Algebra.Order.Ring.Int

/-!
# Binary search in a sorted list

The search halves the positions that are left until it hits an element that
compares equal. It is told only how what is sought compares with an element:
below it, above it or equal.
-/

namespace BinarySearch

variable {α : Type} {compare : α → ℤ} {list : List α}

/-- Search the positions from `lo` to before `hi`. -/
def search (compare : α → ℤ) (list : List α) : ℕ → ℕ → ℕ → Option ℕ
  | 0, _, _ => none
  | fuel + 1, lo, hi =>
    if lo < hi then
      match list[(lo + hi) / 2]? with
      | none => none
      | some a =>
        if compare a < 0 then search compare list fuel lo ((lo + hi) / 2)
        else if 0 < compare a then search compare list fuel ((lo + hi) / 2 + 1) hi
        else some ((lo + hi) / 2)
    else none

/-- Search the whole list. -/
def bsearch (compare : α → ℤ) (list : List α) : Option ℕ :=
  search compare list list.length 0 list.length

/-- **The order of the list follows the comparison**: what is sought is below
everything after an element that it is below, and above everything before an
element that it is above. -/
def Sorted (compare : α → ℤ) (list : List α) : Prop :=
  list.Pairwise (fun a b => (compare a < 0 → compare b < 0) ∧ (0 < compare b → 0 < compare a))

/-- What is found compares equal, in any order of the list. -/
theorem search_some {fuel lo hi i : ℕ} (h : search compare list fuel lo hi = some i) :
    ∃ a, list[i]? = some a ∧ compare a = 0 := by
  induction fuel generalizing lo hi with
  | zero => cases h
  | succ fuel ih =>
    unfold search at h
    split at h
    · cases hmid : list[(lo + hi) / 2]? with
      | none =>
        rw [hmid] at h
        cases h
      | some a =>
        simp only [hmid] at h
        split at h
        · exact ih h
        · rename_i hbelow
          split at h
          · exact ih h
          · rename_i habove
            have hi : (lo + hi) / 2 = i := Option.some.inj h
            exact ⟨a, hi ▸ hmid, le_antisymm (not_lt.mp habove) (not_lt.mp hbelow)⟩
    · cases h

theorem search_isSome (hsorted : Sorted compare list) {fuel lo hi i : ℕ} {a : α}
    (hfuel : hi - lo ≤ fuel) (hhi : hi ≤ list.length) (hlo : lo ≤ i) (hlt : i < hi)
    (ha : list[i]? = some a) (hequal : compare a = 0) :
    (search compare list fuel lo hi).isSome = true := by
  induction fuel generalizing lo hi with
  | zero => omega
  | succ fuel ih =>
    have hmid : (lo + hi) / 2 < list.length := by omega
    obtain ⟨hi_lt, rfl⟩ := getElem?_eq_some_iff.mp ha
    have hpair := List.pairwise_iff_getElem.mp hsorted
    unfold search
    rw [if_pos (lt_of_le_of_lt hlo hlt), List.getElem?_eq_getElem hmid]
    show Option.isSome (if _ then _ else _) = true
    split
    · rename_i hbelow
      refine ih (by omega) (by omega) hlo (not_le.mp fun hle => ?_)
      -- Past an element that it is below, nothing compares equal.
      rcases hle.eq_or_lt with heq | hlt'
      · subst heq
        omega
      · have habsurd := (hpair _ _ hmid hi_lt hlt').1 hbelow
        omega
    · split
      · rename_i habove
        refine ih (by omega) hhi (Nat.succ_le_of_lt (not_le.mp fun hle => ?_)) hlt
        rcases hle.eq_or_lt with heq | hlt'
        · subst heq
          omega
        · have habsurd := (hpair _ _ hi_lt hmid hlt').2 habove
          omega
      · rfl

theorem bsearch_some {i : ℕ} (h : bsearch compare list = some i) :
    ∃ a, list[i]? = some a ∧ compare a = 0 := search_some h

/-- **The search finds an element exactly when there is one.** -/
theorem bsearch_isSome_iff (hsorted : Sorted compare list) :
    (bsearch compare list).isSome = true ↔ ∃ a ∈ list, compare a = 0 := by
  constructor
  · intro h
    obtain ⟨i, hi⟩ := Option.isSome_iff_exists.mp h
    obtain ⟨a, ha, hequal⟩ := bsearch_some hi
    exact ⟨a, List.mem_of_getElem? ha, hequal⟩
  · rintro ⟨a, hmem, hequal⟩
    obtain ⟨i, hi, rfl⟩ := List.getElem_of_mem hmem
    exact search_isSome hsorted (Nat.sub_zero _).le le_rfl (Nat.zero_le i) hi
      (List.getElem?_eq_getElem hi) hequal

end BinarySearch
