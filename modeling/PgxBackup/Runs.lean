import Mathlib.Data.List.SplitBy

/-!
# Runs of a list

A list is split into runs of neighbours that belong together. Where it is
known of every pair of neighbours what holds between them when they belong
together and what when they do not, the former holds inside of the runs and
the latter where one run follows another.
-/

namespace Runs

open List

variable {α : Type} {r : α → α → Bool} {R S : α → α → Prop} {l : List α}

/-- What holds where a run follows another. -/
def Follows (S : α → α → Prop) (g g' : List α) : Prop :=
  ∀ a ∈ g.getLast?, ∀ b ∈ g'.head?, S a b

theorem isChain_and {R S : α → α → Prop} (hR : l.IsChain R) (hS : l.IsChain S) :
    l.IsChain (fun a b => R a b ∧ S a b) := by
  rw [isChain_iff_forall_rel_of_append_cons_cons] at *
  exact fun a b l₁ l₂ h => ⟨hR h, hS h⟩

theorem eq_of_isChain {β : Type} {f : α → β} {a : α} (h : (a :: l).IsChain (fun b c => f b = f c)) :
    ∀ b ∈ l, f a = f b := by
  exact (pairwise_cons.mp h.pairwise).1

theorem isInfix_of_mem_splitBy {g : List α} (hg : g ∈ l.splitBy r) : g <:+: l := by
  obtain ⟨before, after, h⟩ := append_of_mem hg
  refine ⟨before.flatten, after.flatten, ?_⟩
  rw [← flatten_splitBy r l, h]
  simp

theorem flatten_flatMap_splitBy {β : Type} (r : α → α → Bool) (f : β → List α) (ls : List β) :
    (ls.flatMap (fun b => (f b).splitBy r)).flatten = ls.flatMap f := by
  induction ls with
  | nil => rfl
  | cons b ls ih =>
    rw [flatMap_cons, flatMap_cons, flatten_append, flatten_splitBy, ih]

theorem splitBy_cons (r : α → α → Bool) (a : α) (l : List α) :
    ∃ g gs, (a :: l).splitBy r = (a :: g) :: gs := by
  have hflat : ((a :: l).splitBy r).flatten = a :: l := flatten_splitBy _ _
  have hnil : [] ∉ (a :: l).splitBy r := nil_notMem_splitBy _ _
  generalize (a :: l).splitBy r = all at *
  match all with
  | [] => simp at hflat
  | [] :: _ => exact absurd mem_cons_self hnil
  | (b :: g) :: gs =>
    rw [flatten_cons, cons_append] at hflat
    obtain rfl : b = a := (cons.inj hflat).1
    exact ⟨g, gs, rfl⟩

section

variable (h : l.IsChain (fun a b => if r a b then R a b else S a b))
include h

theorem isChain_of_mem {g : List α} (hg : g ∈ l.splitBy r) : g.IsChain R := by
  have hin : g.IsChain (fun a b => if r a b then R a b else S a b) :=
    h.infix (isInfix_of_mem_splitBy hg)
  refine (isChain_and hin (isChain_of_mem_splitBy hg)).imp (fun a b hab => ?_)
  have := hab.1
  rw [if_pos hab.2] at this
  exact this

theorem isChain_follows : (l.splitBy r).IsChain (Follows S) := by
  have hout := isChain_getLast_head_splitBy r l
  rw [isChain_iff_forall_rel_of_append_cons_cons] at hout ⊢
  intro g g' before after hsplit a ha b hb
  obtain ⟨g₀, rfl⟩ : ∃ g₀, g = g₀ ++ [a] := getLast?_eq_some_iff.mp ha
  obtain ⟨g₁, rfl⟩ : ∃ g₁, g' = b :: g₁ := head?_eq_some_iff.mp hb
  obtain ⟨_, _, hr⟩ := hout hsplit
  rw [getLast_append_singleton, head_cons] at hr
  have hl : l = (before.flatten ++ g₀) ++ a :: b :: (g₁ ++ after.flatten) := by
    rw [← flatten_splitBy r l, hsplit]
    simp
  rw [isChain_iff_forall_rel_of_append_cons_cons] at h
  have hab := h hl
  rw [if_neg (by simpa using hr)] at hab
  exact hab

end

end Runs
