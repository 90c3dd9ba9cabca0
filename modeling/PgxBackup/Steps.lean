import Mathlib.Data.Option.Basic

/-!
# Runs of a transition function

A system is a function that takes a state and a label and returns the next
state, or `none` when the label is not possible in the state. A run is a
list of labels. What a step preserves, a run preserves; the step may rely on
a condition on the labels of the run.
-/

namespace Steps

variable {σ α : Type} (step : σ → α → Option σ)

/-- The state after a list of labels, if all of them are possible. -/
def run : σ → List α → Option σ
  | s, [] => some s
  | s, a :: as => (step s a).bind (fun s' => run s' as)

/-- **Every label of the run meets a condition** in the state in which it is
taken. -/
def Meets (condition : σ → α → Prop) : σ → List α → Prop
  | _, [] => True
  | s, a :: as => condition s a ∧ ∀ s', step s a = some s' → Meets condition s' as

variable {step}

variable {s t : σ} {as : List α} {condition : σ → α → Prop}

theorem run_cons {a : α} :
    run step s (a :: as) = some t ↔ ∃ s', step s a = some s' ∧ run step s' as = some t :=
  Option.bind_eq_some_iff

theorem meets_cons {s' : σ} {a : α}
    (h : condition s a) (hstep : step s a = some s') (hrest : Meets step condition s' as) :
    Meets step condition s (a :: as) :=
  ⟨h, fun _ ht => Option.some.inj (hstep.symm.trans ht) ▸ hrest⟩

theorem meets_and {condition' : σ → α → Prop}
    (h : Meets step condition s as) (h' : Meets step condition' s as) :
    Meets step (fun s a => condition s a ∧ condition' s a) s as := by
  induction as generalizing s with
  | nil => trivial
  | cons a as ih => exact ⟨⟨h.1, h'.1⟩, fun s' hstep => ih (h.2 s' hstep) (h'.2 s' hstep)⟩

/-- The condition can be checked along a run. -/
instance decidableMeets (condition : σ → α → Prop) [∀ s a, Decidable (condition s a)] :
    ∀ s as, Decidable (Meets step condition s as)
  | _, [] => isTrue trivial
  | s, a :: as =>
    match h : step s a with
    | none => decidable_of_iff (condition s a)
        ⟨fun hc => ⟨hc, fun _ ht => absurd (h.symm.trans ht) nofun⟩, fun hm => hm.1⟩
    | some s' =>
      have := decidableMeets condition s' as
      decidable_of_iff (condition s a ∧ Meets step condition s' as)
        ⟨fun hm => meets_cons hm.1 h hm.2, fun hm => ⟨hm.1, hm.2 s' h⟩⟩

/-- **What every step preserves, every run preserves**, as long as the labels
meet the condition. -/
theorem run_invariant_of_meets {P : σ → Prop}
    (hstep : ∀ s a s', P s → condition s a → step s a = some s' → P s') (as : List α)
    (hs : P s) (hmeets : Meets step condition s as) (hrun : run step s as = some t) : P t := by
  induction as generalizing s with
  | nil => exact Option.some.inj hrun ▸ hs
  | cons a as ih =>
    obtain ⟨s', hs', hrest⟩ := run_cons.mp hrun
    exact ih (hstep s a s' hs hmeets.1 hs') (hmeets.2 s' hs') hrest

/-- **A run over labels that are always possible.** The invariant may depend
on the labels taken so far; when every label is possible under it, the run
has a last state and the invariant holds there. -/
theorem run_of_progress {P : List α → σ → Prop} (labels : List α)
    (hstep : ∀ before a after s, labels = before ++ a :: after → P before s →
      ∃ s', step s a = some s' ∧ P (before ++ [a]) s') (hs : P [] s) :
    ∃ t, run step s labels = some t ∧ P labels t := by
  have key : ∀ after before s, labels = before ++ after → P before s →
      ∃ t, run step s after = some t ∧ P labels t := by
    intro after
    induction after with
    | nil =>
      intro before s hlabels hP
      rw [List.append_nil] at hlabels
      exact ⟨s, rfl, hlabels ▸ hP⟩
    | cons a after ih =>
      intro before s hlabels hP
      obtain ⟨s', hs', hP'⟩ := hstep before a after s hlabels hP
      obtain ⟨t, hrun, ht⟩ := ih (before ++ [a]) s' (by rw [hlabels]; simp) hP'
      exact ⟨t, run_cons.mpr ⟨s', hs', hrun⟩, ht⟩
  exact key labels [] s rfl hs

theorem run_invariant {P : σ → Prop} (hstep : ∀ s a s', P s → step s a = some s' → P s')
    (as : List α) (hs : P s) (hrun : run step s as = some t) : P t := by
  induction as generalizing s with
  | nil => exact Option.some.inj hrun ▸ hs
  | cons a as ih =>
    obtain ⟨s', hs', hrest⟩ := run_cons.mp hrun
    exact ih (hstep s a s' hs hs') hrest

end Steps
