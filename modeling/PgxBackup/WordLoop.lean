import Mathlib.Algebra.Order.Group.Nat
import Mathlib.Tactic.Common

/-!
# Loops with an index of limited size

A loop counts an index from zero in steps of a stride while it is below a
bound. The index is a machine integer: it starts again at zero when it reaches
the end of its range. With a bound inside the range the loop visits the
multiples of the stride once each. With a bound at or past the end of the range
no index ever reaches it, and only the body can end the loop.
-/

namespace WordLoop

variable {σ ε : Type} {range bound stride : ℕ} {body : ℕ → σ → Except ε σ}

/-- The loop, for at most `fuel` tests of its condition; `none` if it is still
running then. -/
def loop (range bound stride : ℕ) (body : ℕ → σ → Except ε σ) : ℕ → ℕ → σ → Option (Except ε σ)
  | 0, _, _ => none
  | fuel + 1, idx, s =>
    if idx < bound then
      match body idx s with
      | .error e => some (.error e)
      | .ok s => loop range bound stride body fuel ((idx + stride) % range) s
    else some (.ok s)

/-- From this index and state on, the loop ends with a result. -/
def Ends (range bound stride : ℕ) (body : ℕ → σ → Except ε σ) (idx : ℕ) (s : σ) (result : Except ε σ) : Prop :=
  ∃ fuel, loop range bound stride body fuel idx s = some result

variable {idx : ℕ} {s : σ} {e : ε} {result : Except ε σ}

theorem ends_done (s : σ) (h : bound ≤ idx) : Ends range bound stride body idx s (.ok s) :=
  ⟨1, if_neg (not_lt.mpr h)⟩

theorem ends_error (h : idx < bound) (hbody : body idx s = .error e) :
    Ends range bound stride body idx s (.error e) := by
  refine ⟨1, ?_⟩
  unfold loop
  rw [if_pos h, hbody]

theorem ends_step {next : σ} (h : idx < bound) (hbody : body idx s = .ok next)
    (hrest : Ends range bound stride body ((idx + stride) % range) next result) :
    Ends range bound stride body idx s result := by
  obtain ⟨fuel, hfuel⟩ := hrest
  refine ⟨fuel + 1, ?_⟩
  unfold loop
  rw [if_pos h, hbody]
  exact hfuel

theorem loop_mono {fuel : ℕ}
    (h : loop range bound stride body fuel idx s = some result) (more : ℕ) :
    loop range bound stride body (fuel + more) idx s = some result := by
  induction fuel generalizing idx s with
  | zero => cases h
  | succ fuel ih =>
    rw [Nat.succ_add]
    unfold loop at h ⊢
    split at h
    next hidx =>
      rw [if_pos hidx]
      cases hbody : body idx s with
      | error e =>
        rw [hbody] at h
        exact h
      | ok next =>
        rw [hbody] at h
        exact ih h
    next hidx =>
      rw [if_neg hidx]
      exact h

/-- **The loop ends in one way.** -/
theorem ends_unique {result' : Except ε σ} (h : Ends range bound stride body idx s result)
    (h' : Ends range bound stride body idx s result') : result = result' := by
  obtain ⟨fuel, h⟩ := h
  obtain ⟨fuel', h'⟩ := h'
  have hmore := loop_mono h fuel'
  rw [Nat.add_comm, loop_mono h' fuel] at hmore
  exact (Option.some.inj hmore).symm

/-- **With a bound past the range of the index, the loop does not run out.** -/
theorem not_ends_ok (hrange : 0 < range) (h : range ≤ bound) (hidx : idx < range) (s next : σ) :
    ¬Ends range bound stride body idx s (.ok next) := by
  rintro ⟨fuel, hfuel⟩
  induction fuel generalizing idx s with
  | zero => cases hfuel
  | succ fuel ih =>
    unfold loop at hfuel
    rw [if_pos (lt_of_lt_of_le hidx h)] at hfuel
    cases hbody : body idx s with
    | error e =>
      rw [hbody] at hfuel
      cases hfuel
    | ok mid =>
      rw [hbody] at hfuel
      exact ih (Nat.mod_lt _ hrange) mid hfuel

/-- An error comes from the body, at an index that the loop reaches. -/
theorem exists_of_ends_error (hrange : 0 < range) (hidx : idx < range)
    (h : Ends range bound stride body idx s (.error e)) :
    ∃ i t, i < range ∧ i < bound ∧ body i t = .error e := by
  obtain ⟨fuel, hfuel⟩ := h
  induction fuel generalizing idx s with
  | zero => cases hfuel
  | succ fuel ih =>
    unfold loop at hfuel
    split at hfuel
    next hlt =>
      cases hbody : body idx s with
      | error e' =>
        rw [hbody] at hfuel
        obtain rfl := Except.error.inj (Option.some.inj hfuel)
        exact ⟨idx, s, hidx, hlt, hbody⟩
      | ok next =>
        rw [hbody] at hfuel
        exact ih (Nat.mod_lt _ hrange) hfuel
    next => cases Option.some.inj hfuel

/-- **The first index at which the body fails** ends a loop that counts by
one. -/
theorem ends_error_first {i : ℕ} (hbound : i < bound) (hrange : i < range)
    (hbefore : ∀ j < i, body j s = .ok s) (hi : body i s = .error e) : Ends range bound 1 body 0 s (.error e) := by
  have hrun : ∀ left done, done + left = i → Ends range bound 1 body done s (.error e) := by
    intro left
    induction left with
    | zero =>
      intro done hdone
      obtain rfl : done = i := hdone
      exact ends_error hbound hi
    | succ left ih =>
      intro done hdone
      refine ends_step (by omega) (hbefore done (by omega)) ?_
      rw [Nat.mod_eq_of_lt (by omega)]
      exact ih (done + 1) (by omega)
  exact hrun i 0 (Nat.zero_add i)

/-- A loop that counts by one to a bound inside the range, over a body that
never fails and changes nothing. -/
theorem ends_ok_of_forall (hrange : bound < range) (h : ∀ j < bound, body j s = .ok s) :
    Ends range bound 1 body 0 s (.ok s) := by
  have hrun : ∀ left done, done + left = bound → Ends range bound 1 body done s (.ok s) := by
    intro left
    induction left with
    | zero => exact fun done hdone => ends_done s (by omega)
    | succ left ih =>
      intro done hdone
      refine ends_step (by omega) (h done (by omega)) ?_
      rw [Nat.mod_eq_of_lt (by omega)]
      exact ih (done + 1) (by omega)
  exact hrun bound 0 (Nat.zero_add bound)

/-- **With a bound inside the range, the loop is a fold** over the multiples of
the stride below the bound. -/
theorem ends_foldlM {step : σ → ℕ → Except ε σ} {count : ℕ} (hlow : ∀ i < count, stride * i < bound)
    (hhigh : bound ≤ stride * count) (hrange : stride * count < range)
    (hbody : ∀ i < count, ∀ s, body (stride * i) s = step s i) (s : σ) :
    Ends range bound stride body 0 s ((List.range count).foldlM step s) := by
  have hrun : ∀ left done s, done + left = count →
      Ends range bound stride body (stride * done) s ((List.range' done left).foldlM step s) := by
    intro left
    induction left with
    | zero =>
      intro done s hdone
      rw [Nat.add_zero] at hdone
      exact ends_done s (hdone ▸ hhigh)
    | succ left ih =>
      intro done s hdone
      have hlt : stride * done < bound := hlow done (by omega)
      rw [List.range'_succ, List.foldlM_cons, ← hbody done (by omega) s]
      cases hstep : body (stride * done) s with
      | error e => exact ends_error hlt hstep
      | ok next =>
        refine ends_step hlt hstep ?_
        have hnext : stride * done + stride < range := by
          refine lt_of_le_of_lt ?_ hrange
          rw [← Nat.mul_succ]
          exact Nat.mul_le_mul_left stride (by omega)
        rw [Nat.mod_eq_of_lt hnext, ← Nat.mul_succ]
        exact ih (done + 1) next (by omega)
  rw [List.range_eq_range']
  exact hrun count 0 s (Nat.zero_add _)

end WordLoop
