import Mathlib.Data.Int.ModEq
import Mathlib.Data.List.Iterate
import Mathlib.Data.List.Perm.Basic
import Mathlib.Tactic.Ring

/-!
# Taking from a list of queues

Several clients take items from shared queues. A client scans the queues from
a position of its own, forward or backward with wrap-around, until it finds
something to take or is back where it has begun. Whatever the direction, the
scan ends, it has seen every queue when it finds nothing, and the items that
are taken and those that are left are the items that were there.
-/

namespace Queues

open List

variable {ι α β : Type}

/-- Scan from a position until something is taken or the position is `stop`
again. The scan has not ended when the fuel is used up. -/
def scan [DecidableEq ι] (next : ι → ι) (take : ι → Option β) (stop : ι) :
    ℕ → ι → Option (Option β)
  | 0, _ => none
  | fuel + 1, position =>
    match take position with
    | some item => some (some item)
    | none => if next position = stop then some none else scan next take stop fuel (next position)

/-- A position is back after `total` steps, and not earlier. -/
structure Cycle (next : ι → ι) (start : ι) (total : ℕ) : Prop where
  pos : 0 < total
  returns : next^[total] start = start
  first : ∀ i, 0 < i → i < total → next^[i] start ≠ start

/-- **A scan of a cycle ends.** It finds the first thing to take among the
positions of the cycle. -/
theorem scan_eq [DecidableEq ι] {next : ι → ι} {take : ι → Option β} {start : ι} {total : ℕ}
    (hcycle : Cycle next start total) {fuel : ℕ} (hfuel : total ≤ fuel) :
    scan next take start fuel start = some ((iterate next start total).findSome? take) := by
  -- after `done` steps, `left` positions of the cycle are left
  have key : ∀ left done fuel, done + left + 1 = total → left + 1 ≤ fuel →
      scan next take start fuel (next^[done] start) =
        some ((iterate next (next^[done] start) (left + 1)).findSome? take) := by
    intro left
    induction left with
    | zero =>
      intro done fuel hdone hfuel
      obtain ⟨fuel, rfl⟩ := Nat.exists_eq_add_of_le' hfuel
      have hlast : next (next^[done] start) = start := by
        rw [← Function.iterate_succ_apply' next done start]
        have hreturns := hcycle.returns
        rwa [← hdone] at hreturns
      cases htake : take (next^[done] start) with
      | some item => simp [scan, htake, iterate]
      | none => simp [scan, htake, iterate, hlast]
    | succ left ih =>
      intro done fuel hdone hfuel
      obtain ⟨fuel, rfl⟩ := Nat.exists_eq_add_of_le' (Nat.le_of_add_left_le hfuel)
      have hnext : next (next^[done] start) ≠ start := by
        rw [← Function.iterate_succ_apply' next done start]
        exact hcycle.first _ (Nat.succ_pos _) (by omega)
      have hrest := ih (done + 1) fuel (by omega) (by omega)
      rw [Function.iterate_succ_apply'] at hrest
      cases htake : take (next^[done] start) with
      | some item => simp [scan, htake, iterate]
      | none =>
        rw [scan, htake]
        simp only [hnext, if_false, hrest]
        rw [iterate.eq_def next (next^[done] start), findSome?_cons, htake]
  obtain ⟨left, hleft⟩ := Nat.exists_eq_add_of_le' hcycle.pos
  have := key left 0 fuel (by omega) (by omega)
  rw [hleft]
  exact this

/-! ### Positions with wrap-around -/

section Wrap

variable {next : ℤ → ℤ} {step : ℤ} {total : ℕ}

section

variable (hnext : ∀ x : ℤ, 0 ≤ x → x < total → next x = (x + step) % total)
include hnext

theorem iterate_wrap {start : ℤ} (hstart : 0 ≤ start) (hlt : start < total) (i : ℕ) :
    next^[i] start = (start + i * step) % total := by
  have htotal : (total : ℤ) ≠ 0 := by omega
  induction i with
  | zero =>
    rw [Function.iterate_zero_apply, Nat.cast_zero, zero_mul, add_zero, Int.emod_eq_of_lt hstart hlt]
  | succ i ih =>
    rw [Function.iterate_succ_apply', ih,
      hnext _ (Int.emod_nonneg _ htotal) (Int.emod_lt_of_pos _ (by omega)), Int.emod_add_emod]
    congr 1
    push_cast
    ring

section

variable {start : ℤ} (hstep : step = 1 ∨ step = -1) (hstart : 0 ≤ start) (hlt : start < total)
include hstep hstart hlt

theorem cycle_wrap : Cycle next start total := by
  have hmod : start % total = start := Int.emod_eq_of_lt hstart hlt
  refine ⟨by omega, ?_, fun i hpos hi heq => ?_⟩
  · rw [iterate_wrap hnext hstart hlt, Int.add_mul_emod_self_left, hmod]
  · rw [iterate_wrap hnext hstart hlt] at heq
    have hdvd : (total : ℤ) ∣ i * step := by
      have hcong : start + i * step ≡ start + 0 [ZMOD total] := by
        rw [Int.ModEq, heq, add_zero, hmod]
      exact (Int.modEq_zero_iff_dvd).mp (Int.ModEq.add_left_cancel' start hcong)
    have hdvd' : (total : ℤ) ∣ i := by
      rcases hstep with rfl | rfl
      · rwa [mul_one] at hdvd
      · rwa [mul_neg_one, Int.dvd_neg] at hdvd
    exact Nat.not_le_of_lt hi (Nat.le_of_dvd hpos (Int.natCast_dvd_natCast.mp hdvd'))

theorem mem_iterate_wrap {position : ℤ} :
    position ∈ iterate next start total ↔ 0 ≤ position ∧ position < total := by
  have htotal : (total : ℤ) ≠ 0 := by omega
  rw [mem_iterate]
  constructor
  · rintro ⟨i, -, rfl⟩
    rw [iterate_wrap hnext hstart hlt]
    exact ⟨Int.emod_nonneg _ htotal, Int.emod_lt_of_pos _ (by omega)⟩
  · rintro ⟨hpos, hposlt⟩
    -- the number of steps is the distance in the direction of the scan
    have hnonneg := Int.emod_nonneg ((position - start) * step) htotal
    have hdist := Int.emod_lt_of_pos ((position - start) * step) (by omega : 0 < (total : ℤ))
    refine ⟨(((position - start) * step) % total).toNat, by omega, ?_⟩
    rw [iterate_wrap hnext hstart hlt, Int.toNat_of_nonneg hnonneg]
    have hcong : start + (position - start) * step % total * step ≡ position [ZMOD total] := by
      calc start + (position - start) * step % total * step
          ≡ start + (position - start) * step * step [ZMOD total] :=
            (Int.ModEq.mul_right step (Int.mod_modEq _ _)).add_left start
        _ = position := by
            rcases hstep with rfl | rfl <;> ring
    rw [hcong, Int.emod_eq_of_lt hpos hposlt]

end

end

end Wrap

/-- The next position, forward or backward with wrap-around. -/
def next (backward : Bool) (total : ℕ) (position : ℤ) : ℤ :=
  let position := position + if backward then -1 else 1
  if position < 0 then total - 1
  else if position = total then 0
  else position

theorem next_eq (backward : Bool) {total : ℕ} {position : ℤ} (hnonneg : 0 ≤ position)
    (hlt : position < total) :
    next backward total position = (position + if backward then -1 else 1) % total := by
  unfold next
  dsimp only
  generalize hstep : (if backward then (-1 : ℤ) else 1) = step
  split
  next hneg =>
    rw [← Int.add_emod_right, Int.emod_eq_of_lt (by omega) (by omega)]
    omega
  next hneg =>
    split
    next hend => rw [hend, Int.emod_self]
    next hend => rw [Int.emod_eq_of_lt (by omega) (by omega)]

/-- **A scan ends and sees every position**: it finds something at one of the
positions, or there is nothing at any of them. -/
theorem scan_next (backward : Bool) {total : ℕ} (take : ℤ → Option β) {start : ℤ}
    (hstart : 0 ≤ start) (hlt : start < total) {fuel : ℕ} (hfuel : total ≤ fuel) :
    (∃ item, ∃ position : ℤ, scan (next backward total) take start fuel start = some (some item) ∧
      0 ≤ position ∧ position < total ∧ take position = some item) ∨
    (scan (next backward total) take start fuel start = some none ∧
      ∀ position : ℤ, 0 ≤ position → position < total → take position = none) := by
  have hnext : ∀ x : ℤ, 0 ≤ x → x < total → next backward total x =
      (x + if backward then -1 else 1) % total := fun x => next_eq backward
  have hstep : (if backward then (-1 : ℤ) else 1) = 1 ∨ (if backward then (-1 : ℤ) else 1) = -1 := by
    cases backward
    · exact Or.inl rfl
    · exact Or.inr rfl
  rw [scan_eq (cycle_wrap hnext hstep hstart hlt) hfuel]
  cases hfind : (iterate (next backward total) start total).findSome? take with
  | some item =>
    left
    obtain ⟨position, hmem, htake⟩ := exists_of_findSome?_eq_some hfind
    rw [mem_iterate_wrap hnext hstep hstart hlt] at hmem
    exact ⟨item, position, rfl, hmem.1, hmem.2, htake⟩
  | none =>
    right
    refine ⟨rfl, fun position hnonneg hposition => ?_⟩
    rw [findSome?_eq_none_iff] at hfind
    exact hfind position ((mem_iterate_wrap hnext hstep hstart hlt).mpr ⟨hnonneg, hposition⟩)

/-! ### The items of the queues -/

/-- What is taken from one queue and what is left in all of them is what was
in them. -/
theorem flatten_set_perm {queues : List (List α)} {i : ℕ} {queue left taken : List α}
    (hqueue : queues[i]? = some queue) (hperm : queue.Perm (taken ++ left)) :
    queues.flatten.Perm (taken ++ (queues.set i left).flatten) := by
  induction queues generalizing i with
  | nil => cases hqueue
  | cons first queues ih =>
    cases i with
    | zero =>
      obtain rfl : first = queue := by simpa using hqueue
      rw [set_cons_zero, flatten_cons, flatten_cons, ← append_assoc]
      exact hperm.append_right _
    | succ i =>
      rw [set_cons_succ, flatten_cons, flatten_cons]
      have hrest := ih (i := i) (by simpa using hqueue)
      refine (hrest.append_left first).trans ?_
      rw [← append_assoc, ← append_assoc]
      exact perm_append_comm.append_right _

theorem flatten_modify_perm {queues : List (List α)} {i : ℕ} (hi : i < queues.length) (item : α) :
    (queues.modify i (fun queue => queue ++ [item])).flatten.Perm (item :: queues.flatten) := by
  induction queues generalizing i with
  | nil => cases hi
  | cons first queues ih =>
    cases i with
    | zero =>
      simp only [modify_zero_cons, flatten_cons, append_assoc, singleton_append]
      exact perm_middle
    | succ i =>
      rw [modify_succ_cons, flatten_cons, flatten_cons]
      exact ((ih (Nat.lt_of_succ_lt_succ hi)).append_left first).trans perm_middle

theorem flatten_map_perm {f : List α → List α} (hf : ∀ queue, (f queue).Perm queue)
    (queues : List (List α)) : (queues.map f).flatten.Perm queues.flatten := by
  induction queues with
  | nil => exact List.Perm.refl _
  | cons queue queues ih =>
    rw [map_cons, flatten_cons, flatten_cons]
    exact (hf queue).append ih

end Queues
