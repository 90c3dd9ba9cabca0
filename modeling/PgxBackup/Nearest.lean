import Mathlib.Data.List.Pairwise
import Mathlib.Order.Lattice

/-!
# The nearest element of a kind

In a sorted list, what is inside of what can be decided by the neighbours. This
needs two things: whatever lies in the order between an element and something
inside of it is inside of it too, and of the elements that are in the list
already none is inside of another one.
-/

namespace Nearest

open List

variable {κ α : Type} [LinearOrder κ] {key : α → κ} {p : α → Bool} {inside : κ → κ → Prop}
  {l : List α} {k : κ}

/-- Between an element and something inside of it there is only what is inside
of it. -/
def Convex (inside : κ → κ → Prop) : Prop := ∀ a b c, inside a c → a ≤ b → b ≤ c → inside a b

theorem eq_or_of_find? {r : α → α → Prop} (hsorted : l.Pairwise r) {first a : α}
    (hfirst : l.find? p = some first) (ha : a ∈ l) (hp : p a = true) : a = first ∨ r first a := by
  obtain ⟨-, before, after, rfl, hbefore⟩ := find?_eq_some_iff_append.mp hfirst
  rcases mem_append.mp ha with ha | ha
  · have hfalse := hbefore a ha
    rw [hp] at hfalse
    cases hfalse
  · rcases mem_cons.mp ha with rfl | ha
    · exact .inl rfl
    · exact .inr ((pairwise_cons.mp (pairwise_append.mp hsorted).2.1).1 a ha)

section

variable (hconvex : Convex inside) (hsorted : l.Pairwise (fun a b => key a < key b))
include hconvex hsorted

/-- **Nothing above is inside, if the nearest element above is not.** -/
theorem above_iff (habove : ∀ a ∈ l, k < key a) :
    (∀ a ∈ l.find? p, ¬inside k (key a)) ↔ ∀ a ∈ l, p a = true → ¬inside k (key a) := by
  constructor
  · intro h a ha hp hinside
    obtain ⟨first, hfirst⟩ := Option.isSome_iff_exists.mp (find?_isSome.mpr ⟨a, ha, hp⟩)
    have hle : key first ≤ key a := by
      rcases eq_or_of_find? hsorted hfirst ha hp with rfl | hlt
      · exact le_rfl
      · exact hlt.le
    exact h first hfirst (hconvex k (key first) (key a) hinside (habove _ (mem_of_find?_eq_some hfirst)).le hle)
  · intro h a ha
    exact h a (mem_of_find?_eq_some ha) (find?_some ha)

/-- **It is not inside of anything below, if it is not inside of the nearest
element below.** -/
theorem below_iff
    (hanti : ∀ a ∈ l, ∀ b ∈ l, p a = true → p b = true → inside (key a) (key b) → a = b)
    (hbelow : ∀ a ∈ l, key a < k) :
    (∀ a ∈ l.reverse.find? p, ¬inside (key a) k) ↔ ∀ a ∈ l, p a = true → ¬inside (key a) k := by
  constructor
  · intro h a ha hp hinside
    obtain ⟨last, hlast⟩ := Option.isSome_iff_exists.mp
      (find?_isSome.mpr ⟨a, mem_reverse.mpr ha, hp⟩)
    have hmem : last ∈ l := mem_reverse.mp (mem_of_find?_eq_some hlast)
    have hle : key a ≤ key last := by
      rcases eq_or_of_find? (pairwise_reverse.mpr hsorted) hlast (mem_reverse.mpr ha) hp with rfl | hlt
      · exact le_rfl
      · exact hlt.le
    -- The nearest element is inside of this one, so it is this one.
    have hbetween : inside (key a) (key last) := hconvex _ _ _ hinside hle (hbelow last hmem).le
    have heq := hanti a ha last hmem hp (find?_some hlast) hbetween
    exact h last hlast (heq ▸ hinside)
  · intro h a ha
    exact h a (mem_reverse.mp (mem_of_find?_eq_some ha)) (find?_some ha)

end

end Nearest
