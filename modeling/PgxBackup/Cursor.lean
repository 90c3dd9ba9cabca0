import Mathlib.Data.List.TakeWhile
import Mathlib.Order.Basic

/-!
# Taking matches from the head of a sorted list

A sorted list can be searched for one predicate after the other without going
back: what does not match is skipped, the matches that follow are taken, and the
search goes on behind them. The first run of matches is all of them if the
matches are adjacent.
-/

namespace Cursor

open List

variable {α : Type} (p : α → Bool)

/-- The list from the first match on. -/
def skip (l : List α) : List α := l.dropWhile fun x => !p x

/-- The first run of matches. -/
def run (l : List α) : List α := (skip p l).takeWhile p

/-- What is behind the first run. -/
def rest (l : List α) : List α := (skip p l).dropWhile p

/-- What is in front of the first run, and the run. -/
def passed (l : List α) : List α := (l.takeWhile fun x => !p x) ++ run p l

theorem passed_append_rest (l : List α) : passed p l ++ rest p l = l := by
  unfold passed rest run skip
  rw [append_assoc, takeWhile_append_dropWhile, takeWhile_append_dropWhile]

variable {p}

variable {l : List α}

theorem eq_true_of_mem_run {x : α} (h : x ∈ run p l) : p x = true :=
  mem_takeWhile_imp h

/-- There is no run only if there are no matches, and then nothing is left. -/
theorem skip_eq_nil_of_run (h : run p l = []) : skip p l = [] := by
  unfold run at h
  cases hskip : skip p l with
  | nil => rfl
  | cons x xs =>
    have hx : p x = true := by
      have hhead := head?_dropWhile_not (fun x => !p x) l
      rw [← skip, hskip] at hhead
      simpa using hhead
    rw [hskip, takeWhile_cons_of_pos hx] at h
    cases h

theorem run_eq_nil_iff : run p l = [] ↔ ∀ x ∈ l, p x = false := by
  constructor
  · intro h x hx
    have hnil : l.dropWhile (fun x => !p x) = [] := skip_eq_nil_of_run h
    simpa using dropWhile_eq_nil_iff.mp hnil x hx
  · intro h
    have hnil : skip p l = [] := dropWhile_eq_nil_iff.mpr fun x hx => by simp [h x hx]
    unfold run
    rw [hnil]
    rfl

theorem le_run_of_mem_passed [Preorder α] (hsorted : l.Pairwise (· ≤ ·))
    (hrun : run p l ≠ []) {x : α} (hx : x ∈ passed p l) : ∃ y ∈ run p l, x ≤ y := by
  have ⟨y, hy⟩ := exists_mem_of_ne_nil _ hrun
  rcases mem_append.mp hx with hx | hx
  · refine ⟨y, hy, ?_⟩
    rw [← passed_append_rest p l, pairwise_append] at hsorted
    exact (pairwise_append.mp hsorted.1).2.2 x hx y hy
  · exact ⟨x, hx, le_rfl⟩

/-- The matches are next to each other. -/
def Adjacent (p : α → Bool) (l : List α) : Prop :=
  ∃ before matching after, l = before ++ (matching ++ after) ∧ (∀ x ∈ before, p x = false)
    ∧ (∀ x ∈ matching, p x = true) ∧ ∀ x ∈ after, p x = false

theorem filter_eq_nil (h : ∀ x ∈ l, p x = false) : l.filter p = [] :=
  filter_eq_nil_iff.mpr fun x hx => by simp [h x hx]

theorem skip_append {before : List α} (h : ∀ x ∈ before, p x = false) :
    skip p (before ++ l) = skip p l :=
  dropWhile_append_of_pos fun x hx => by simp [h x hx]

/-- **Adjacent matches** are all found as the first run. -/
theorem Adjacent.run_eq_filter (h : Adjacent p l) : run p l = l.filter p := by
  have ⟨before, matching, after, hl, hbefore, hmatching, hafter⟩ := h
  have hfilter : l.filter p = matching := by
    rw [hl, filter_append, filter_append, filter_eq_nil hbefore, filter_eq_nil hafter,
      filter_eq_self.mpr hmatching, nil_append, append_nil]
  have hafter' : after.takeWhile p = [] := by
    cases after with
    | nil => rfl
    | cons x xs =>
      refine takeWhile_cons_of_neg ?_
      rw [hafter x mem_cons_self]
      exact Bool.false_ne_true
  rw [hfilter]
  unfold run
  rw [hl, skip_append hbefore]
  cases matching with
  | nil => exact run_eq_nil_iff.mpr hafter
  | cons x xs =>
    have hskip : skip p (x :: xs ++ after) = x :: xs ++ after := by
      refine dropWhile_cons_of_neg ?_
      rw [hmatching x mem_cons_self]
      exact Bool.false_ne_true
    rw [hskip, takeWhile_append_of_pos hmatching, hafter', append_nil]

/-- Whether matches are adjacent can be seen from the first run. -/
theorem adjacent_iff : Adjacent p l ↔ run p l = l.filter p := by
  refine ⟨Adjacent.run_eq_filter, fun h => ?_⟩
  have hbefore : ∀ x ∈ l.takeWhile (fun x => !p x), p x = false := fun x hx => by
    simpa using mem_takeWhile_imp hx
  have hsplit : l = l.takeWhile (fun x => !p x) ++ (run p l ++ rest p l) := by
    rw [← append_assoc]
    exact (passed_append_rest p l).symm
  have hrest : (rest p l).filter p = [] := by
    have hfilter := congrArg (filter p) hsplit
    rw [filter_append, filter_append, filter_eq_nil hbefore, nil_append,
      filter_eq_self.mpr fun x => eq_true_of_mem_run, ← h] at hfilter
    exact self_eq_append_right.mp hfilter
  refine ⟨_, run p l, rest p l, hsplit, hbefore, fun x => eq_true_of_mem_run, fun x hx => ?_⟩
  simpa using filter_eq_nil_iff.mp hrest x hx

instance (l : List α) [DecidableEq α] : Decidable (Adjacent p l) :=
  decidable_of_iff _ adjacent_iff.symm

/-- What is passed over without a match does not count. -/
theorem Adjacent.of_append {dropped : List α} (h : Adjacent p (dropped ++ l))
    (hdropped : ∀ x ∈ dropped, p x = false) : Adjacent p l := by
  have ⟨before, matching, after, hl, hbefore, hmatching, hafter⟩ := h
  rcases append_eq_append_iff.mp hl with ⟨more, hmore, heq⟩ | ⟨more, hmore, heq⟩
  · refine ⟨more, matching, after, heq, fun x hx => hbefore x ?_, hmatching, hafter⟩
    rw [hmore]
    exact mem_append_right _ hx
  · -- the rest of what is dropped would be matches
    have hnone : ∀ x ∈ more, p x = false := fun x hx => hdropped x (by
      rw [hmore]
      exact mem_append_right _ hx)
    cases matching with
    | nil =>
      refine ⟨[], [], l, rfl, nofun, nofun, fun x hx => hafter x ?_⟩
      rw [show after = more ++ l from heq]
      exact mem_append_right _ hx
    | cons x xs =>
      cases more with
      | nil => exact ⟨[], x :: xs, after, heq.symm, nofun, hmatching, hafter⟩
      | cons y ys =>
        have hx := hmatching x mem_cons_self
        rw [(cons.inj heq).1, hnone y mem_cons_self] at hx
        cases hx

end Cursor
