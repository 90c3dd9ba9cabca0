import Mathlib.Data.List.Basic

/-!
# Patterns of characters

A pattern says which words it spells. A match tries every way to read a pattern
at the start of a word and keeps what each way leaves, so a pattern that spells
the whole word leaves nothing in one of them.
-/

variable {α : Type}

/-- A pattern over an alphabet, with one character of a kind and one or more
characters of a kind as its smallest parts. -/
inductive Pattern (α : Type)
  | empty
  | one (p : α → Bool)
  | many (p : α → Bool)
  | seq (first second : Pattern α)
  | alt (first second : Pattern α)

namespace Pattern

open List

/-- What can be left of a word after one or more characters of a kind. -/
def restMany (p : α → Bool) : List α → List (List α)
  | [] => []
  | c :: s => if p c then s :: restMany p s else []

/-- What can be left of a word after the pattern. -/
def rest : Pattern α → List α → List (List α)
  | empty, s => [s]
  | one _, [] => []
  | one p, c :: s => if p c then [s] else []
  | many p, s => restMany p s
  | seq first second, s => (rest first s).flatMap (rest second)
  | alt first second, s => rest first s ++ rest second s

/-- **Does the pattern match the whole word?** -/
def test (pattern : Pattern α) (s : List α) : Bool := (rest pattern s).any List.isEmpty

def Spells : Pattern α → List α → Prop
  | empty, w => w = []
  | one p, w => ∃ c, p c = true ∧ w = [c]
  | many p, w => w ≠ [] ∧ ∀ c ∈ w, p c = true
  | seq first second, w => ∃ u v, Spells first u ∧ Spells second v ∧ w = u ++ v
  | alt first second, w => Spells first w ∨ Spells second w

theorem mem_restMany {p : α → Bool} {s t : List α} :
    t ∈ restMany p s ↔ ∃ w, (w ≠ [] ∧ ∀ c ∈ w, p c = true) ∧ s = w ++ t := by
  induction s with
  | nil =>
    refine ⟨fun h => absurd h not_mem_nil, ?_⟩
    rintro ⟨w, ⟨hw, -⟩, h⟩
    exact absurd (append_eq_nil_iff.mp h.symm).1 hw
  | cons c s ih =>
    unfold restMany
    split
    · rename_i hc
      rw [mem_cons, ih]
      constructor
      · rintro (rfl | ⟨w, ⟨-, hall⟩, rfl⟩)
        · exact ⟨[c], ⟨cons_ne_nil _ _, by simpa using hc⟩, rfl⟩
        · exact ⟨c :: w, ⟨cons_ne_nil _ _, forall_mem_cons.mpr ⟨hc, hall⟩⟩, rfl⟩
      · rintro ⟨w, ⟨hw, hall⟩, h⟩
        cases w with
        | nil => exact absurd rfl hw
        | cons d w =>
          obtain ⟨rfl, rfl⟩ := cons.inj h
          cases w with
          | nil => exact .inl rfl
          | cons d' w =>
            exact .inr ⟨d' :: w, ⟨cons_ne_nil _ _, (forall_mem_cons.mp hall).2⟩, rfl⟩
    · rename_i hc
      refine ⟨fun h => absurd h not_mem_nil, ?_⟩
      rintro ⟨w, ⟨hw, hall⟩, h⟩
      cases w with
      | nil => exact absurd rfl hw
      | cons d w =>
        obtain ⟨rfl, -⟩ := cons.inj h
        exact absurd (hall _ mem_cons_self) hc

/-- **Each way to read the pattern spells what it takes.** -/
theorem mem_rest {pattern : Pattern α} {s t : List α} :
    t ∈ rest pattern s ↔ ∃ w, Spells pattern w ∧ s = w ++ t := by
  induction pattern generalizing s t with
  | empty =>
    show t ∈ [s] ↔ ∃ w, w = [] ∧ s = w ++ t
    simp [eq_comm]
  | one p =>
    cases s with
    | nil => simp [rest, Spells]
    | cons c s =>
      unfold rest Spells
      constructor
      · intro h
        split at h
        · rename_i hc
          rw [mem_singleton] at h
          exact ⟨[c], ⟨c, hc, rfl⟩, h ▸ rfl⟩
        · cases h
      · rintro ⟨w, ⟨d, hd, rfl⟩, h⟩
        obtain ⟨rfl, rfl⟩ := cons.inj h
        rw [if_pos hd]
        exact mem_singleton_self _
  | many p => exact mem_restMany
  | seq first second ihfirst ihsecond =>
    unfold rest Spells
    rw [mem_flatMap]
    constructor
    · rintro ⟨r, hr, ht⟩
      obtain ⟨u, hu, rfl⟩ := ihfirst.mp hr
      obtain ⟨v, hv, rfl⟩ := ihsecond.mp ht
      exact ⟨u ++ v, ⟨u, v, hu, hv, rfl⟩, (append_assoc u v t).symm⟩
    · rintro ⟨w, ⟨u, v, hu, hv, rfl⟩, rfl⟩
      exact ⟨v ++ t, ihfirst.mpr ⟨u, hu, append_assoc u v t⟩, ihsecond.mpr ⟨v, hv, rfl⟩⟩
  | alt first second ihfirst ihsecond =>
    unfold rest Spells
    rw [mem_append, ihfirst, ihsecond, ← exists_or]
    simp only [or_and_right]

/-- **A match of the whole word is a word that the pattern spells.** -/
theorem test_iff {pattern : Pattern α} {s : List α} : test pattern s = true ↔ Spells pattern s := by
  unfold test
  rw [any_eq_true]
  constructor
  · rintro ⟨t, ht, hnil⟩
    rw [List.isEmpty_iff] at hnil
    subst hnil
    obtain ⟨w, hw, rfl⟩ := mem_rest.mp ht
    rwa [append_nil]
  · intro h
    exact ⟨[], mem_rest.mpr ⟨s, h, (append_nil s).symm⟩, rfl⟩

/-! ## Patterns made of these -/

/-- One character after the other, each of its own kind. -/
def ones (ps : List (α → Bool)) : Pattern α := ps.foldr (fun p pattern => seq (one p) pattern) empty

/-- A fixed word. -/
def lit [DecidableEq α] (s : List α) : Pattern α := ones (s.map fun c d => decide (d = c))

def opt (pattern : Pattern α) : Pattern α := alt empty pattern

/-- Several patterns one after the other. -/
def seqs (patterns : List (Pattern α)) : Pattern α := patterns.foldr seq empty

theorem spells_ones_cons {p : α → Bool} {ps : List (α → Bool)} {w : List α} :
    Spells (ones (p :: ps)) w ↔ ∃ c s, p c = true ∧ Spells (ones ps) s ∧ w = c :: s := by
  show (∃ u v, (∃ c, p c = true ∧ u = [c]) ∧ Spells (ones ps) v ∧ w = u ++ v) ↔ _
  constructor
  · rintro ⟨u, v, ⟨c, hc, rfl⟩, hv, rfl⟩
    exact ⟨c, v, hc, hv, rfl⟩
  · rintro ⟨c, s, hc, hs, rfl⟩
    exact ⟨[c], s, ⟨c, hc, rfl⟩, hs, rfl⟩

theorem spells_lit [DecidableEq α] {s w : List α} : Spells (lit s) w ↔ w = s := by
  induction s generalizing w with
  | nil => exact Iff.rfl
  | cons c s ih =>
    show Spells (ones (_ :: s.map _)) w ↔ _
    rw [spells_ones_cons]
    constructor
    · rintro ⟨d, t, hd, ht, rfl⟩
      rw [of_decide_eq_true hd, ih.mp ht]
    · rintro rfl
      exact ⟨c, s, decide_eq_true rfl, ih.mpr rfl, rfl⟩

theorem spells_seqs_cons {pattern : Pattern α} {patterns : List (Pattern α)} {w : List α} :
    Spells (seqs (pattern :: patterns)) w ↔
      ∃ u v, Spells pattern u ∧ Spells (seqs patterns) v ∧ w = u ++ v := Iff.rfl

end Pattern
