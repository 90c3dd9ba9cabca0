import Mathlib.Logic.Relation
import Mathlib.Data.List.Basic
import Mathlib.Order.Lattice

/-!
# Dependency chains over a list in key order

A list of entries, each with a key and possibly the key of a *parent*, is a
forest. When the list is sorted by key and every parent sorts before its
child, one pass from the front that collects the keys whose parent is
already collected finds every descendant of the starting key: by the time
an entry is reached, the fate of its parent is settled
(`mem_collect_iff`).

Removing a key together with all its descendants leaves a list that is
closed again: what remains has lost neither its parent nor any of its
ancestors (`Closed.filter`). Everything is stated for an arbitrary entry
type and an arbitrary linear order of keys.
-/

namespace DepClosure

open List

variable {α κ : Type} (key : α → κ) (parent : α → Option κ)

/-- **The parent relation of a list**: `x` is the parent of `y` when some
entry of the list has key `y` and parent `x`. -/
def Edge (l : List α) (x y : κ) : Prop :=
  ∃ a ∈ l, parent a = some x ∧ key a = y

/-- `x` is a proper ancestor of `y` in the list. -/
def Ancestor (l : List α) : κ → κ → Prop :=
  Relation.TransGen (Edge key parent l)

/-- **One pass from the front**, adding the key of each entry whose parent
has already been collected. -/
def collect [DecidableEq κ] (l : List α) (acc : List κ) : List κ :=
  l.foldl (fun acc a =>
    match parent a with
    | some p => if p ∈ acc then acc ++ [key a] else acc
    | none => acc) acc

section Collect

variable {key parent} [DecidableEq κ] {l : List α} {acc : List κ} {x : κ}

theorem collect_append (l₁ l₂ : List α) :
    collect key parent (l₁ ++ l₂) acc
      = collect key parent l₂ (collect key parent l₁ acc) := by
  unfold collect
  rw [foldl_append]

theorem collect_cons_none {a : α} (h : parent a = none) :
    collect key parent (a :: l) acc = collect key parent l acc := by
  simp [collect, h]

theorem collect_cons_some {a : α} {p : κ} (h : parent a = some p) :
    collect key parent (a :: l) acc
      = collect key parent l (if p ∈ acc then acc ++ [key a] else acc) := by
  simp [collect, h]

theorem mem_collect_of_mem (h : x ∈ acc) : x ∈ collect key parent l acc := by
  induction l generalizing acc with
  | nil => exact h
  | cons a l ih =>
    cases hp : parent a with
    | none => rw [collect_cons_none hp]; exact ih h
    | some p =>
      rw [collect_cons_some hp]
      apply ih
      split
      · exact mem_append_left _ h
      · exact h

/-- What a pass adds is the key of an entry it went over. -/
theorem mem_of_mem_collect (h : x ∈ collect key parent l acc) :
    x ∈ acc ∨ ∃ a ∈ l, key a = x := by
  induction l generalizing acc with
  | nil => exact Or.inl h
  | cons a l ih =>
    cases hp : parent a with
    | none =>
      rw [collect_cons_none hp] at h
      rcases ih h with h | ⟨b, hb, hx⟩
      · exact Or.inl h
      · exact Or.inr ⟨b, mem_cons_of_mem _ hb, hx⟩
    | some p =>
      rw [collect_cons_some hp] at h
      rcases ih h with h | ⟨b, hb, hx⟩
      · split at h
        · rcases mem_append.mp h with h | h
          · exact Or.inl h
          · exact Or.inr ⟨a, mem_cons_self, (mem_singleton.mp h).symm⟩
        · exact Or.inl h
      · exact Or.inr ⟨b, mem_cons_of_mem _ hb, hx⟩

/-- Every collected key descends from one that was there at the start. -/
theorem reachable_of_mem_collect {l' : List α} (hl : ∀ a ∈ l, a ∈ l')
    (h : x ∈ collect key parent l acc) :
    ∃ k ∈ acc, Relation.ReflTransGen (Edge key parent l') k x := by
  induction l generalizing acc with
  | nil => exact ⟨x, h, Relation.ReflTransGen.refl⟩
  | cons a l ih =>
    have hl' : ∀ b ∈ l, b ∈ l' := fun b hb => hl b (mem_cons_of_mem _ hb)
    cases hp : parent a with
    | none => rw [collect_cons_none hp] at h; exact ih hl' h
    | some p =>
      rw [collect_cons_some hp] at h
      obtain ⟨k, hk, hkx⟩ := ih hl' h
      split at hk
      · rename_i hpacc
        rcases mem_append.mp hk with hk | hk
        · exact ⟨k, hk, hkx⟩
        · have hka : k = key a := mem_singleton.mp hk
          have hedge : Edge key parent l' p k :=
            ⟨a, hl a mem_cons_self, hp, hka.symm⟩
          exact ⟨p, hpacc, Relation.ReflTransGen.head hedge hkx⟩
      · exact ⟨k, hk, hkx⟩

end Collect

/-- **Keys in order, parents first**: the list is strictly sorted by key and
the parent of every entry sorts before it. -/
structure Ordered [LT κ] (l : List α) : Prop where
  /-- The keys strictly increase. -/
  sorted : l.Pairwise (fun a b => key a < key b)
  /-- A parent sorts before its child. -/
  parent_lt : ∀ a ∈ l, ∀ p, parent a = some p → p < key a

/-- **A list that keeps its dependencies**: keys in order, parents first, and
every parent present. -/
structure Closed [LT κ] (l : List α) : Prop extends Ordered key parent l where
  /-- The parent of every entry is the key of an entry. -/
  parent_mem : ∀ a ∈ l, ∀ p, parent a = some p → ∃ b ∈ l, key b = p

section Order

variable {key parent} [LinearOrder κ] {l : List α} {x y : κ}

/-- **One pass is enough**: in a list in key order the pass from `[k]`
collects exactly `k` and its descendants. -/
theorem mem_collect_iff [DecidableEq κ] (h : Ordered key parent l) (k x : κ) :
    x ∈ collect key parent l [k]
      ↔ Relation.ReflTransGen (Edge key parent l) k x := by
  constructor
  · intro hx
    obtain ⟨k', hk', hkx⟩ := reachable_of_mem_collect (fun a ha => ha) hx
    rw [mem_singleton] at hk'
    exact hk' ▸ hkx
  · intro hkx
    induction hkx with
    | refl => exact mem_collect_of_mem (mem_singleton_self k)
    | @tail y z _ hyz ih =>
      obtain ⟨a, ha, hp, rfl⟩ := hyz
      obtain ⟨l₁, l₂, rfl⟩ := append_of_mem ha
      -- the parent was collected before the entry is reached, since the keys
      -- of what follows it are larger
      have hlt : y < key a := h.parent_lt a ha y hp
      have hy : y ∈ collect key parent l₁ [k] := by
        rw [collect_append, collect_cons_some hp] at ih
        rcases mem_of_mem_collect ih with hm | ⟨b, hb, hby⟩
        · split at hm
          · rcases mem_append.mp hm with hm | hm
            · exact hm
            · exact absurd (mem_singleton.mp hm) hlt.ne
          · exact hm
        · have hab : key a < key b := by
            have := (pairwise_append.mp h.sorted).2.1
            exact rel_of_pairwise_cons this hb
          exact absurd (hby ▸ hab) (not_lt_of_gt hlt)
      rw [collect_append, collect_cons_some hp, if_pos hy]
      exact mem_collect_of_mem (mem_append_right _ (mem_singleton_self _))

/-- In a list in key order no key is collected twice: what is collected lies
between `k` and the keys that are still to come. -/
theorem nodup_collect [DecidableEq κ] (h : Ordered key parent l) {acc : List κ} {k : κ}
    (hnodup : acc.Nodup) (hle : ∀ z ∈ acc, k ≤ z)
    (hlt : ∀ a ∈ l, ∀ z ∈ acc, z = k ∨ z < key a) : (collect key parent l acc).Nodup := by
  induction l generalizing acc with
  | nil => exact hnodup
  | cons a l ih =>
    have hl : Ordered key parent l :=
      ⟨h.sorted.of_cons, fun b hb => h.parent_lt b (mem_cons_of_mem _ hb)⟩
    have hlt' : ∀ b ∈ l, ∀ z ∈ acc, z = k ∨ z < key b :=
      fun b hb => hlt b (mem_cons_of_mem _ hb)
    cases hp : parent a with
    | none =>
      rw [collect_cons_none hp]
      exact ih hl hnodup hle hlt'
    | some p =>
      rw [collect_cons_some hp]
      split
      · rename_i hpacc
        have hka : k < key a := (hle p hpacc).trans_lt (h.parent_lt a mem_cons_self p hp)
        have hnew : key a ∉ acc := by
          intro hmem
          cases hlt a mem_cons_self _ hmem with
          | inl heq => exact absurd heq hka.ne'
          | inr hself => exact absurd hself (lt_irrefl _)
        refine ih hl ?_ ?_ ?_
        · exact nodup_append.mpr ⟨hnodup, pairwise_singleton _ _, fun z hz w hw heq =>
            hnew (by rw [← mem_singleton.mp hw, ← heq]; exact hz)⟩
        · intro z hz
          cases mem_append.mp hz with
          | inl hz => exact hle z hz
          | inr hz => rw [mem_singleton.mp hz]; exact hka.le
        · intro b hb z hz
          cases mem_append.mp hz with
          | inl hz => exact hlt' b hb z hz
          | inr hz =>
            rw [mem_singleton.mp hz]
            exact Or.inr (rel_of_pairwise_cons h.sorted hb)
      · exact ih hl hnodup hle hlt'

theorem Ordered.filter (h : Ordered key parent l) (q : α → Bool) :
    Ordered key parent (l.filter q) where
  sorted := h.sorted.filter q
  parent_lt := fun a ha => h.parent_lt a (mem_of_mem_filter ha)

variable {a : α} {q : α → Bool}

theorem Ordered.eq_of_key_eq (h : Ordered key parent l) {b : α}
    (ha : a ∈ l) (hb : b ∈ l) (hab : key a = key b) : a = b := by
  obtain ⟨l₁, l₂, rfl⟩ := append_of_mem ha
  obtain ⟨-, h₂, h₁⟩ := pairwise_append.mp h.sorted
  rcases mem_append.mp hb with hb | hb
  · exact absurd hab (h₁ b hb a mem_cons_self).ne'
  · rcases mem_cons.mp hb with rfl | hb
    · rfl
    · exact absurd hab (rel_of_pairwise_cons h₂ hb).ne

theorem Ordered.lt_of_ancestor (h : Ordered key parent l)
    (hxy : Ancestor key parent l x y) : x < y := by
  induction hxy with
  | single he =>
    obtain ⟨a, ha, hp, rfl⟩ := he
    exact h.parent_lt a ha _ hp
  | tail _ he ih =>
    obtain ⟨a, ha, hp, rfl⟩ := he
    exact ih.trans (h.parent_lt a ha _ hp)

theorem Closed.mem_of_ancestor (h : Closed key parent l)
    (hxy : Ancestor key parent l x y) : ∃ b ∈ l, key b = x := by
  induction hxy with
  | single he =>
    obtain ⟨a, ha, hp, _⟩ := he
    exact h.parent_mem a ha _ hp
  | tail _ _ ih => exact ih

/-- In a closed list every entry descends from one without a parent. -/
theorem Closed.exists_root (h : Closed key parent l) (ha : a ∈ l) :
    ∃ r ∈ l, parent r = none ∧
      Relation.ReflTransGen (Edge key parent l) (key r) (key a) := by
  obtain ⟨n, hn⟩ : ∃ n, n = (l.filter (fun b => decide (key b < key a))).length := ⟨_, rfl⟩
  -- the number of entries that sort before it decreases with each parent
  induction n using Nat.strongRecOn generalizing a with
  | ind n ih =>
    cases hp : parent a with
    | none => exact ⟨a, ha, hp, Relation.ReflTransGen.refl⟩
    | some p =>
      obtain ⟨b, hb, rfl⟩ := h.parent_mem a ha p hp
      have hba : key b < key a := h.parent_lt a ha _ hp
      have hlt : (l.filter (fun c => decide (key c < key b))).length < n := by
        have hsub : (l.filter (fun c => decide (key c < key b))).Sublist
            (l.filter (fun c => decide (key c < key a))) :=
          monotone_filter_right l (fun c hc => by
            rw [decide_eq_true_eq] at hc ⊢
            exact hc.trans hba)
        refine hn ▸ Nat.lt_of_le_of_ne hsub.length_le (fun heq => ?_)
        have hmem : b ∈ l.filter (fun c => decide (key c < key a)) := by
          simp [hb, hba]
        rw [← hsub.eq_of_length heq] at hmem
        simp at hmem
      obtain ⟨r, hr, hnone, hrb⟩ := ih _ hlt hb rfl
      exact ⟨r, hr, hnone, hrb.tail ⟨a, ha, hp, rfl⟩⟩

omit [LinearOrder κ] in
theorem Ancestor.mono {l' : List α} (hl : ∀ a ∈ l, a ∈ l')
    (hxy : Ancestor key parent l x y) : Ancestor key parent l' x y :=
  Relation.TransGen.mono (fun _ _ ⟨a, ha, hp, hy⟩ => ⟨a, hl a ha, hp, hy⟩) x y hxy

/-- Ancestors in one list are ancestors in another that is closed and has
the same parents. -/
theorem Ancestor.transfer {d : List α} (h : Closed key parent l)
    (hagree : ∀ a ∈ d, ∀ b ∈ l, key a = key b → parent a = parent b)
    (hy : ∃ b ∈ l, key b = y) (hxy : Ancestor key parent d x y) :
    Ancestor key parent l x y := by
  induction hxy with
  | single he =>
    obtain ⟨a, ha, hp, rfl⟩ := he
    obtain ⟨b, hb, hba⟩ := hy
    exact Relation.TransGen.single ⟨b, hb, (hagree a ha b hb hba.symm).symm.trans hp, hba⟩
  | tail _ he ih =>
    obtain ⟨a, ha, hp, rfl⟩ := he
    obtain ⟨b, hb, hba⟩ := hy
    have hbp := (hagree a ha b hb hba.symm).symm.trans hp
    exact (ih (h.parent_mem b hb _ hbp)).tail ⟨b, hb, hbp, hba⟩

/-! ## Adding an entry at the end -/

/-- An entry that sorts last and whose parent is present can be added. -/
theorem Closed.append_singleton (h : Closed key parent l)
    (hlast : ∀ b ∈ l, key b < key a)
    (hparent : ∀ p, parent a = some p → ∃ b ∈ l, key b = p) :
    Closed key parent (l ++ [a]) where
  sorted := by
    refine pairwise_append.mpr ⟨h.sorted, pairwise_singleton _ _, ?_⟩
    intro b hb c hc
    rw [mem_singleton.mp hc]
    exact hlast b hb
  parent_lt := by
    intro b hb p hp
    rcases mem_append.mp hb with hb | hb
    · exact h.parent_lt b hb p hp
    · rw [mem_singleton] at hb
      subst hb
      obtain ⟨c, hc, rfl⟩ := hparent p hp
      exact hlast c hc
  parent_mem := by
    intro b hb p hp
    rcases mem_append.mp hb with hb | hb
    · obtain ⟨c, hc, hcp⟩ := h.parent_mem b hb p hp
      exact ⟨c, mem_append_left _ hc, hcp⟩
    · rw [mem_singleton] at hb
      subst hb
      obtain ⟨c, hc, hcp⟩ := hparent p hp
      exact ⟨c, mem_append_left _ hc, hcp⟩

/-! ## Removing an entry with all its descendants -/

/-- A selection that keeps the parent of every entry it keeps. -/
def KeepsParents (key : α → κ) (parent : α → Option κ) (l : List α)
    (q : α → Bool) : Prop :=
  ∀ a ∈ l, q a = true → ∀ b ∈ l, parent a = some (key b) → q b = true

section

variable (h : Closed key parent l) (hq : KeepsParents key parent l q)
include h hq

/-- Selecting entries along with their parents keeps the list closed. -/
theorem Closed.filter : Closed key parent (l.filter q) where
  toOrdered := h.toOrdered.filter q
  parent_mem := by
    intro a ha p hp
    obtain ⟨hal, hqa⟩ := mem_filter.mp ha
    obtain ⟨b, hb, rfl⟩ := h.parent_mem a hal p hp
    exact ⟨b, mem_filter.mpr ⟨hb, hq a hal hqa b hb hp⟩, rfl⟩

/-- **No kept entry loses an ancestor.** -/
theorem Ancestor.filter (ha : a ∈ l) (hqa : q a = true) (hx : Ancestor key parent l x (key a)) :
    Ancestor key parent (l.filter q) x (key a) := by
  generalize hy : key a = y at hx
  induction hx generalizing a with
  | single he =>
    obtain ⟨c, hc, hp, hcy⟩ := he
    have hca : c = a := h.eq_of_key_eq hc ha (hcy.trans hy.symm)
    subst hca
    exact Relation.TransGen.single ⟨c, mem_filter.mpr ⟨hc, hqa⟩, hp, hcy⟩
  | @tail z _ _ he ih =>
    obtain ⟨c, hc, hp, hcy⟩ := he
    have hca : c = a := h.eq_of_key_eq hc ha (hcy.trans hy.symm)
    subst hca
    obtain ⟨b, hb, rfl⟩ := h.parent_mem c hc z hp
    have hqb : q b = true := hq c hc hqa b hb hp
    exact (ih hb hqb rfl).tail ⟨c, mem_filter.mpr ⟨hc, hqa⟩, hp, hcy⟩

end

/-- The entries outside the pass from `[k]` keep their parents: an entry
whose parent is collected is collected itself. -/
theorem keepsParents_collect [DecidableEq κ] (h : Ordered key parent l) (k : κ)
    (hq : ∀ a, q a = true ↔ key a ∉ collect key parent l [k]) :
    KeepsParents key parent l q := by
  intro a ha hqa b hb hp
  rw [hq] at hqa ⊢
  intro hcol
  rw [mem_collect_iff h] at hqa hcol
  exact hqa (hcol.tail ⟨a, ha, hp, rfl⟩)

end Order

end DepClosure
