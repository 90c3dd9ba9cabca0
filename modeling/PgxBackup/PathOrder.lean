import Mathlib.Data.List.Sort

/-!
# The order of a tree walk

A position in a tree is the list of the steps that lead to it. A walk visits
the siblings of each node in an order that may depend on the node, and a node
before everything inside it or after it. This is a strict order of the positions,
so two walks that visit the same positions visit them in the same sequence.
-/

namespace PathOrder

open List

variable {α : Type} {lt lt' : List α → α → α → Prop} {insideFirst : Prop}

/-- **Is the first position visited before the second one?** Both are below a
node, and the order of siblings is `lt`. -/
def Before (lt : List α → α → α → Prop) (insideFirst : Prop) : List α → List α → List α → Prop
  | _, [], [] => False
  | _, [], _ :: _ => ¬insideFirst
  | _, _ :: _, [] => insideFirst
  | above, a :: as, b :: bs => lt above a b ∨ a = b ∧ Before lt insideFirst (above ++ [a]) as bs

theorem Before.asymm (hlt : ∀ above a b, lt above a b → ¬lt above b a) {above as bs : List α}
    (h : Before lt insideFirst above as bs) : ¬Before lt insideFirst above bs as := by
  induction as generalizing above bs with
  | nil =>
    cases bs with
    | nil => exact absurd h id
    | cons b bs => exact h
  | cons a as ih =>
    cases bs with
    | nil => exact fun h' => h' h
    | cons b bs =>
      rintro (hba | ⟨heq, hbefore⟩)
      · rcases h with hab | ⟨rfl, -⟩
        · exact hlt above a b hab hba
        · exact hlt above a a hba hba
      · subst heq
        rcases h with hab | ⟨-, hbefore'⟩
        · exact hlt above b b hab hab
        · exact ih hbefore' hbefore

/-- Positions below a common node are compared there. -/
theorem before_append_iff (hlt : ∀ above a, ¬lt above a a) (above steps as bs : List α) :
    Before lt insideFirst above (steps ++ as) (steps ++ bs) ↔ Before lt insideFirst (above ++ steps) as bs := by
  induction steps generalizing above with
  | nil => rw [nil_append, nil_append, append_nil]
  | cons step steps ih =>
    show lt above step step ∨ step = step ∧ Before lt insideFirst (above ++ [step]) (steps ++ as) (steps ++ bs) ↔ _
    rw [or_iff_right (hlt above step), ih, append_assoc]
    exact and_iff_right rfl

/-- **Another order of siblings** makes no difference where it is the same. -/
theorem Before.imp {above as bs : List α} (h : Before lt insideFirst above as bs)
    (himp : ∀ steps a as' b bs', as = steps ++ a :: as' → bs = steps ++ b :: bs' →
      lt (above ++ steps) a b → lt' (above ++ steps) a b) : Before lt' insideFirst above as bs := by
  induction as generalizing above bs with
  | nil => cases bs <;> exact h
  | cons a as ih =>
    cases bs with
    | nil => exact h
    | cons b bs =>
      rcases h with hab | ⟨rfl, hbefore⟩
      · have hlt := himp [] a as b bs rfl rfl
        rw [append_nil] at hlt
        exact .inl (hlt hab)
      · refine .inr ⟨rfl, ih hbefore fun steps c as' d bs' has hbs => ?_⟩
        rw [append_assoc]
        exact himp (a :: steps) c as' d bs' (congrArg (a :: ·) has) (congrArg (a :: ·) hbs)

/-- A node is visited before what is inside it, or after it. -/
theorem before_inside (hlt : ∀ above a, ¬lt above a a) (as : List α) {bs : List α} (hbs : bs ≠ []) :
    (¬insideFirst → Before lt insideFirst [] as (as ++ bs)) ∧ (insideFirst → Before lt insideFirst [] (as ++ bs) as) := by
  have hfirst := @before_append_iff α lt insideFirst hlt [] as [] bs
  have hlast := @before_append_iff α lt insideFirst hlt [] as bs []
  rw [append_nil] at hfirst hlast
  rw [hfirst, hlast]
  cases bs with
  | nil => exact absurd rfl hbs
  | cons b bs => exact ⟨id, id⟩

/-- **Two walks over the same positions are the same.** -/
theorem eq_of_same_elements {β : Type} {r : β → β → Prop} (hasymm : ∀ a b, r a b → ¬r b a)
    {as bs : List β} (has : as.Pairwise r) (hbs : bs.Pairwise r)
    (hmem : ∀ a, a ∈ as ↔ a ∈ bs) : as = bs := by
  have hnodup {l : List β} (hl : l.Pairwise r) : l.Nodup := by
    refine hl.imp fun {a b} hab heq => ?_
    subst heq
    exact hasymm a a hab hab
  have hperm : as.Perm bs := (perm_ext_iff_of_nodup (hnodup has) (hnodup hbs)).mpr hmem
  exact hperm.eq_of_pairwise (fun a b _ _ hab hba => absurd hba (hasymm a b hab)) has hbs

/-- **An insertion sort is stable**: elements that are not ordered keep the
order they had. -/
theorem pairwise_insertionSort {β : Type} (r : β → β → Prop) {s : β → β → Prop} [DecidableRel r]
    (htotal : ∀ a b, r a b ∨ r b a) (htrans : ∀ a b c, r a b → r b c → r a c) {l : List β}
    (hl : l.Pairwise s) : (l.insertionSort r).Pairwise (fun a b => r a b ∧ (r b a → s a b)) := by
  have hinsert (a : β) (l : List β) (hs : ∀ b ∈ l, s a b)
      (hl : l.Pairwise (fun a b => r a b ∧ (r b a → s a b))) :
      (l.orderedInsert r a).Pairwise (fun a b => r a b ∧ (r b a → s a b)) := by
    induction l with
    | nil => exact pairwise_singleton _ a
    | cons b l ih =>
      rw [pairwise_cons] at hl
      rw [orderedInsert_cons]
      split
      · rename_i hab
        refine pairwise_cons.mpr ⟨fun c hc => ?_, pairwise_cons.mpr hl⟩
        refine ⟨?_, fun _ => hs c hc⟩
        rcases mem_cons.mp hc with rfl | hc
        · exact hab
        · exact htrans a b c hab (hl.1 c hc).1
      · rename_i hab
        refine pairwise_cons.mpr ⟨fun c hc => ?_, ?_⟩
        · rw [mem_orderedInsert] at hc
          rcases hc with rfl | hc
          · exact ⟨(htotal c b).resolve_left hab, fun hr => absurd hr hab⟩
          · exact hl.1 c hc
        · exact ih (fun c hc => hs c (mem_cons_of_mem _ hc)) hl.2
  induction l with
  | nil => exact .nil
  | cons a l ih =>
    rw [pairwise_cons] at hl
    rw [insertionSort_cons]
    refine hinsert a _ (fun b hb => hl.1 b ?_) (ih hl.2)
    exact (mem_insertionSort r).mp hb

end PathOrder
