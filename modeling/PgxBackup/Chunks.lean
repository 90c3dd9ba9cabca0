import Mathlib.Data.List.Basic
import Mathlib.Algebra.Order.Ring.Nat
import Mathlib.Tactic.Ring

/-!
# Chunks of a list

A list is cut into chunks of a fixed size; the last one may be shorter. A
chunk is found by its number, so that what is known of a list position by
position carries over, and a list is known from its chunks.
-/

namespace Chunks

open List

variable {α : Type} {n i : ℕ} {l m : List α}

def chunk (n : ℕ) (l : List α) (i : ℕ) : List α := (l.drop (i * n)).take n

/-- Number of chunks of a list with a length. -/
def total (n length : ℕ) : ℕ := length / n + if length % n = 0 then 0 else 1

def chunks (n : ℕ) (l : List α) : List (List α) := (List.range (total n l.length)).map (chunk n l)

theorem length_chunk (n : ℕ) (l : List α) (i : ℕ) :
    (chunk n l i).length = min n (l.length - i * n) := by
  unfold chunk
  rw [length_take, length_drop]

theorem lt_total_iff (hn : 0 < n) (length i : ℕ) : i < total n length ↔ i * n < length := by
  unfold total
  split
  · rename_i hzero
    rw [Nat.add_zero, Nat.lt_div_iff_mul_lt' (by rw [Nat.dvd_iff_mod_eq_zero]; exact hzero),
      Nat.mul_comm]
  · rename_i hpos
    rw [Nat.lt_succ_iff, Nat.le_div_iff_mul_le hn]
    constructor
    · intro h
      refine lt_of_le_of_ne h (fun heq => hpos ?_)
      rw [← heq]
      exact Nat.mul_mod_left _ _
    · exact le_of_lt

theorem total_mono (hn : 0 < n) {a b : ℕ} (h : a ≤ b) : total n a ≤ total n b := by
  rw [← not_lt, lt_total_iff hn]
  intro hlt
  have hless : total n b < total n b := (lt_total_iff hn _ _).mpr (lt_of_lt_of_le hlt h)
  exact lt_irrefl _ hless

theorem total_mul (hn : 0 < n) (k : ℕ) : total n (k * n) = k := by
  unfold total
  rw [Nat.mul_div_cancel _ hn, Nat.mul_mod_left, if_pos rfl, Nat.add_zero]

theorem total_add (hn : 0 < n) (k : ℕ) {r : ℕ} (hpos : 0 < r) (hr : r ≤ n) :
    total n (k * n + r) = k + 1 := by
  refine le_antisymm ?_ ?_
  · rw [← not_lt, lt_total_iff hn, Nat.succ_mul]
    omega
  · rw [Nat.succ_le_iff, lt_total_iff hn]
    omega

@[simp] theorem length_chunks (n : ℕ) (l : List α) : (chunks n l).length = total n l.length := by
  unfold chunks
  rw [length_map, length_range]

@[simp] theorem chunks_nil (n : ℕ) : chunks n ([] : List α) = [] := by
  unfold chunks total
  simp

theorem getElem?_chunks (n : ℕ) (l : List α) (i : ℕ) :
    (chunks n l)[i]? = if i < total n l.length then some (chunk n l i) else none := by
  unfold chunks
  rw [getElem?_map]
  split
  · rename_i h
    rw [getElem?_range h]
    rfl
  · rename_i h
    rw [getElem?_eq_none (by rw [length_range]; omega)]
    rfl

theorem chunk_ne_nil (hn : 0 < n) (hi : i < total n l.length) : chunk n l i ≠ [] := by
  rw [lt_total_iff hn] at hi
  rw [← length_pos_iff, length_chunk]
  omega

theorem length_chunk_le (n : ℕ) (l : List α) (i : ℕ) : (chunk n l i).length ≤ n := by
  rw [length_chunk]
  exact Nat.min_le_left _ _

/-- A chunk of the part before is not changed by what comes after. -/
theorem chunk_append_left {k : ℕ} (hl : l.length = k * n) (hi : i < k) :
    chunk n (l ++ m) i = chunk n l i := by
  have hle : (i + 1) * n ≤ k * n := Nat.mul_le_mul_right n hi
  rw [Nat.succ_mul] at hle
  unfold chunk
  rw [drop_append_of_le_length (by omega), take_append_of_le_length]
  rw [length_drop]
  omega

theorem chunk_append_right {k : ℕ} (hl : l.length = k * n) (hm : m.length ≤ n) :
    chunk n (l ++ m) k = m := by
  unfold chunk
  rw [← hl, drop_left, take_of_length_le hm]

theorem chunk_append_add {k : ℕ} (hl : l.length = k * n) (i : ℕ) :
    chunk n (l ++ m) (k + i) = chunk n m i := by
  unfold chunk
  rw [Nat.add_mul, ← hl, drop_append, drop_eq_nil_of_le (Nat.le_add_right _ _),
    nil_append, Nat.add_sub_cancel_left]

theorem total_mul_add (hn : 0 < n) (k r : ℕ) : total n (k * n + r) = k + total n r := by
  unfold total
  rw [Nat.mul_comm, Nat.mul_add_div hn, Nat.mul_add_mod, Nat.add_assoc]

/-- **A list that is cut after whole chunks.** -/
theorem chunks_append_of_length {k : ℕ} (hn : 0 < n) (hl : l.length = k * n) (m : List α) :
    chunks n (l ++ m) = chunks n l ++ chunks n m := by
  have htotal : total n l.length = k := by
    rw [hl]
    exact total_mul hn k
  unfold chunks
  rw [length_append, hl, total_mul_add hn, ← hl, htotal, range_add, map_append,
    map_map]
  congr 1
  · refine map_congr_left (fun i hi => ?_)
    exact chunk_append_left hl (mem_range.mp hi)
  · refine map_congr_left (fun i _ => ?_)
    exact chunk_append_add hl i

theorem chunks_singleton (hn : 0 < n) (hm : m ≠ []) (hle : m.length ≤ n) : chunks n m = [m] := by
  have htotal : total n m.length = 1 := by
    have h := total_add hn 0 (length_pos_iff.mpr hm) hle
    rw [Nat.zero_mul, Nat.zero_add] at h
    exact h
  unfold chunks
  rw [htotal, range_one, map_singleton]
  unfold chunk
  rw [Nat.zero_mul, drop_zero, take_of_length_le hle]

theorem chunks_append {k : ℕ} (hn : 0 < n) (hl : l.length = k * n) (hm : m ≠ [])
    (hle : m.length ≤ n) : chunks n (l ++ m) = chunks n l ++ [m] := by
  rw [chunks_append_of_length hn hl, chunks_singleton hn hm hle]

variable {pieces : List (List α)}

theorem length_flatten_of_length (h : ∀ p ∈ pieces, p.length = n) :
    pieces.flatten.length = pieces.length * n := by
  induction pieces with
  | nil => simp
  | cons p pieces ih =>
    rw [forall_mem_cons] at h
    rw [flatten_cons, length_append, h.1, ih h.2, length_cons, Nat.succ_mul,
      Nat.add_comm]

/-- **The chunks make up the list.** -/
theorem flatten_chunks (hn : 0 < n) (l : List α) : (chunks n l).flatten = l := by
  induction hlength : l.length using Nat.strong_induction_on generalizing l with
  | _ length ih =>
    by_cases hshort : l.length ≤ n
    · cases l with
      | nil => rw [chunks_nil]; rfl
      | cons a l => rw [chunks_singleton hn (cons_ne_nil _ _) hshort, flatten_singleton]
    · have hlong := not_le.mp hshort
      have htake : (l.take n).length = 1 * n := by
        rw [length_take, Nat.min_eq_left hlong.le, Nat.one_mul]
      have hdrop : (l.drop n).length < length := by
        rw [length_drop, hlength]
        omega
      calc (chunks n l).flatten = (chunks n (l.take n ++ l.drop n)).flatten := by rw [take_append_drop]
        _ = (chunks n (l.take n)).flatten ++ (chunks n (l.drop n)).flatten := by
          rw [chunks_append_of_length hn htake, flatten_append]
        _ = l.take n ++ l.drop n := by
          rw [ih _ hdrop _ rfl, chunks_singleton hn ?_ (by rw [htake, Nat.one_mul]), flatten_singleton]
          exact ne_nil_of_length_pos (by rw [htake, Nat.one_mul]; exact hn)
        _ = l := take_append_drop n l

theorem chunks_flatten (hn : 0 < n) (h : ∀ p ∈ pieces, p.length = n) :
    chunks n pieces.flatten = pieces := by
  induction pieces with
  | nil => exact chunks_nil n
  | cons p pieces ih =>
    rw [forall_mem_cons] at h
    have hp : p.length = 1 * n := by rw [h.1, Nat.one_mul]
    rw [flatten_cons, chunks_append_of_length hn hp, ih h.2,
      chunks_singleton hn (ne_nil_of_length_pos (by rw [h.1]; exact hn)) h.1.le]
    rfl

theorem chunk_flatten {p : List α} (h : ∀ p ∈ pieces, p.length = n)
    (hi : pieces[i]? = some p) : chunk n pieces.flatten i = p := by
  induction pieces generalizing i with
  | nil => simp at hi
  | cons q pieces ih =>
    rw [forall_mem_cons] at h
    cases i with
    | zero =>
      obtain rfl : q = p := by simpa using hi
      unfold chunk
      rw [Nat.zero_mul, drop_zero, flatten_cons, ← h.1, take_left]
    | succ i =>
      rw [getElem?_cons_succ] at hi
      rw [← ih h.2 hi]
      unfold chunk
      rw [flatten_cons, Nat.succ_mul, Nat.add_comm, ← drop_drop, drop_left' h.1]

theorem getElem?_chunk (hn : 0 < n) (l : List α) (j : ℕ) :
    l[j]? = (chunk n l (j / n))[j % n]? := by
  unfold chunk
  rw [getElem?_take_of_lt (Nat.mod_lt j hn), getElem?_drop, Nat.mul_comm,
    Nat.div_add_mod]

end Chunks
