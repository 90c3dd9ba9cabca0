import Mathlib.Data.List.Basic
import Mathlib.Data.List.InsertIdx
import Mathlib.Data.List.Range
import Mathlib.Data.Nat.Notation

/-!
# Deleting from arrays in place

Items are deleted from an array by moving what follows down, from the last
item to the first, so that the positions that are still to be looked at are
those of the original array. The last item that is left is not deleted.

What is left is described by the positions of the items in the original array:
the same positions are left in every array from which the same items are
deleted.
-/

namespace Compact

open List

variable {α : Type}

/-- Move `size` items from `src` down to `dst`. -/
def memmove (array : List α) (dst src size : ℕ) : List α :=
  array.take dst ++ ((array.drop src).take size ++ array.drop (dst + size))

theorem length_memmove {array : List α} {dst src size : ℕ} (hle : dst ≤ src)
    (hsize : src + size ≤ array.length) : (memmove array dst src size).length = array.length := by
  unfold memmove
  rw [length_append, length_append, length_take, length_take, length_drop,
    length_drop]
  omega

/-- **Moving down deletes an item**: of `total` items, all but the one at the
position are left. -/
theorem take_memmove {array : List α} {position total : ℕ} (hposition : position < total)
    (htotal : total ≤ array.length) :
    (memmove array position (position + 1) (total - position - 1)).take (total - 1) =
      (array.take total).eraseIdx position := by
  have hlength : (array.take position).length = position := by
    rw [length_take]
    omega
  unfold memmove
  rw [eraseIdx_eq_take_drop_succ, take_take, take_append, hlength,
    take_of_length_le (by omega), Nat.min_eq_left hposition.le, drop_take, take_append,
    length_take, length_drop, take_take]
  congr 1
  rw [Nat.min_eq_left (by omega), Nat.min_eq_left (by omega),
    show total - 1 - position - (total - position - 1) = 0 by omega, take_zero, append_nil]
  congr 1
  omega

/-- The positions that are left when those that are not kept are deleted, from
the last one to the first. -/
def left (keep : ℕ → Bool) : ℕ → List ℕ → List ℕ
  | 0, positions => positions
  | position + 1, positions =>
    if positions.length = 1 then positions
    else left keep position (if keep position then positions else positions.eraseIdx position)

theorem left_range_append (keep : ℕ → Bool) (n : ℕ) (tail : List ℕ) (hpos : 0 < n + tail.length) :
    left keep n (range n ++ tail) =
      if tail = [] ∧ (range n).filter keep = [] then [0]
      else (range n).filter keep ++ tail := by
  induction n generalizing tail with
  | zero =>
    have htail : tail ≠ [] := by
      rintro rfl
      exact absurd hpos (lt_irrefl 0)
    simp [left, htail]
  | succ n ih =>
    unfold left
    have hlength : (range (n + 1) ++ tail).length = n + 1 + tail.length := by
      rw [length_append, length_range]
    rw [hlength]
    by_cases hone : n + 1 + tail.length = 1
    · -- only the first position is left
      obtain rfl : n = 0 := by omega
      obtain rfl : tail = [] := eq_nil_of_length_eq_zero (by omega)
      rw [if_pos hone]
      cases hkeep : keep 0
      · simp [range_succ, hkeep]
      · simp [range_succ, hkeep]
    · rw [if_neg hone, range_succ, append_assoc, singleton_append, filter_append]
      cases hkeep : keep n with
      | true =>
        rw [if_pos rfl, ih (n :: tail) (by rw [length_cons]; omega), if_neg (by simp),
          if_neg (by simp [hkeep])]
        simp [hkeep]
      | false =>
        have herase : (range n ++ n :: tail).eraseIdx n = range n ++ tail := by
          rw [eraseIdx_append_of_length_le (by rw [length_range]), length_range,
            Nat.sub_self, eraseIdx_cons_zero]
        rw [if_neg (by simp), herase, ih tail (by omega)]
        simp [hkeep]

/-- **What is left** are the positions that are kept, or the first one. -/
theorem left_range (keep : ℕ → Bool) {n : ℕ} (hpos : 0 < n) :
    left keep n (range n) =
      if (range n).filter keep = [] then [0] else (range n).filter keep := by
  have h := left_range_append keep n [] (by simpa using hpos)
  simpa using h

/-- The items of an array are those of the original array at the positions. -/
def Holds (original array : List α) (positions : List ℕ) : Prop :=
  (array.take positions.length).map some = positions.map (fun position => original[position]?)

variable {original array : List α} {positions : List ℕ}

theorem holds_range (original : List α) : Holds original original (List.range original.length) := by
  unfold Holds
  rw [length_range, take_length]
  refine ext_getElem? (fun i => ?_)
  rw [getElem?_map, getElem?_map]
  by_cases hi : i < original.length
  · rw [getElem?_range hi, getElem?_eq_getElem hi]
    simp [hi]
  · rw [getElem?_eq_none (by omega), getElem?_eq_none (by rw [length_range]; omega)]
    rfl

section

variable (h : Holds original array positions)
include h

theorem Holds.get {i position : ℕ} (hposition : positions[i]? = some position) :
    array[i]?.map some = some original[position]? := by
  have hlt : i < positions.length := (List.getElem?_eq_some_iff.mp hposition).1
  have hitem := congrArg (fun list => list[i]?) h
  simp only [getElem?_map, getElem?_take, hlt, if_true, hposition, Option.map_some] at hitem
  exact hitem

/-- The items that are left keep their order. -/
theorem Holds.pairwise {R : α → α → Prop} (hpositions : positions.Pairwise (· < ·))
    (horiginal : original.Pairwise R) : (array.take positions.length).Pairwise R := by
  have hmap : ((array.take positions.length).map some).Pairwise
      (fun a b => ∀ x y, a = some x → b = some y → R x y) := by
    rw [h, pairwise_map]
    refine hpositions.imp (fun {i j} hlt x y hx hy => ?_)
    obtain ⟨hi, rfl⟩ := List.getElem?_eq_some_iff.mp hx
    obtain ⟨hj, rfl⟩ := List.getElem?_eq_some_iff.mp hy
    exact pairwise_iff_getElem.mp horiginal i j hi hj hlt
  rw [pairwise_map] at hmap
  exact hmap.imp (fun hR => hR _ _ rfl rfl)

/-- **Moving down deletes a position.** -/
theorem Holds.memmove (hlength : positions.length ≤ array.length) {position : ℕ}
    (hposition : position < positions.length) :
    Holds original (memmove array position (position + 1) (positions.length - position - 1))
      (positions.eraseIdx position) := by
  unfold Holds at h ⊢
  rw [length_eraseIdx_of_lt hposition, take_memmove hposition hlength, ← eraseIdx_map, h,
    eraseIdx_map]

theorem Holds.last {position : ℕ} (hposition : position + 1 = positions.length) :
    Holds original array (positions.eraseIdx position) := by
  have hlt : position < positions.length := by omega
  have hlast : positions.eraseIdx position = positions.take position := by
    rw [eraseIdx_eq_take_drop_succ, drop_of_length_le (by omega), append_nil]
  unfold Holds at h ⊢
  rw [length_eraseIdx_of_lt hlt, hlast, ← hposition, Nat.add_sub_cancel]
  have htake := congrArg (take position) h
  rwa [← map_take, ← map_take, take_take, Nat.min_eq_left (by omega)] at htake

end

end Compact
