import Mathlib.Data.List.Nodup

/-!
# Lists with distinct keys

A list whose items have distinct keys is a finite map that keeps the order of
insertion. Removing the item with a key by its position leaves the items with
the other keys.
-/

namespace Keyed

open List

variable {κ β : Type} {key : β → κ} {list : List β}

/-- **Removing by position** is removing by key. -/
theorem eraseIdx_findIdx [DecidableEq κ] (key : β → κ) (hnodup : (list.map key).Nodup) (k : κ) :
    list.eraseIdx (list.findIdx (fun item => key item = k)) =
      list.filter (fun item => key item ≠ k) := by
  induction list with
  | nil => rfl
  | cons item list ih =>
    rw [map_cons, nodup_cons] at hnodup
    rw [findIdx_cons]
    by_cases hkey : key item = k
    · -- no other item has the key
      have hrest : ∀ other ∈ list, key other ≠ k :=
        fun other hmem heq => hnodup.1 (hkey ▸ heq ▸ mem_map_of_mem hmem)
      rw [filter_cons_of_neg (by simp [hkey]), filter_eq_self.mpr (by simpa using hrest)]
      simp [hkey]
    · rw [filter_cons_of_pos (by simp [hkey])]
      simpa [hkey] using ih hnodup.2

theorem nodup_filter (hnodup : (list.map key).Nodup) (p : β → Bool) :
    ((list.filter p).map key).Nodup :=
  hnodup.sublist (filter_sublist.map key)

theorem mem_map_filter [DecidableEq κ] {k k' : κ} :
    k' ∈ (list.filter (fun item => key item ≠ k)).map key ↔ k' ≠ k ∧ k' ∈ list.map key := by
  simp only [mem_map, mem_filter, decide_eq_true_eq]
  constructor
  · rintro ⟨item, ⟨hmem, hne⟩, rfl⟩
    exact ⟨hne, item, hmem, rfl⟩
  · rintro ⟨hne, item, hmem, rfl⟩
    exact ⟨item, ⟨hmem, hne⟩, rfl⟩

theorem nodup_append (hnodup : (list.map key).Nodup) {item : β} (hnew : key item ∉ list.map key) :
    ((list ++ [item]).map key).Nodup := by
  rw [map_append, map_singleton]
  exact List.nodup_append.mpr ⟨hnodup, nodup_singleton _, fun k hk k' hk' heq => by
    rw [mem_singleton.mp hk'] at heq
    exact hnew (heq ▸ hk)⟩

/-- **Grouping by key** keeps every item once. -/
theorem flatMap_filter_perm [DecidableEq κ] (keys : List κ) (hnodup : keys.Nodup) (list : List β)
    (hkeys : ∀ item ∈ list, key item ∈ keys) :
    (keys.flatMap (fun k => list.filter (fun item => key item = k))).Perm list := by
  induction keys generalizing list with
  | nil =>
    obtain rfl := eq_nil_iff_forall_not_mem.mpr
      (fun item hitem => not_mem_nil (hkeys item hitem))
    exact List.Perm.refl _
  | cons k keys ih =>
    rw [nodup_cons] at hnodup
    have hrest : keys.flatMap (fun k' => list.filter (fun item => key item = k'))
        = keys.flatMap (fun k' => (list.filter (fun item => !decide (key item = k))).filter
            (fun item => key item = k')) := by
      refine flatMap_congr (fun k' hk' => ?_)
      rw [filter_filter]
      refine filter_congr (fun item _ => ?_)
      have hne : k' ≠ k := fun heq => hnodup.1 (heq ▸ hk')
      by_cases hitem : key item = k'
      · simp [hitem, hne]
      · simp [hitem]
    rw [flatMap_cons, hrest]
    refine ((ih hnodup.2 _ (fun item hitem => ?_)).append_left _).trans
      (filter_append_perm (fun item => decide (key item = k)) list)
    obtain ⟨hitem, hne⟩ := mem_filter.mp hitem
    refine (mem_cons.mp (hkeys item hitem)).resolve_left (fun heq => ?_)
    simp [heq] at hne

/-! ## Lookups -/

def get [DecidableEq κ] (key : β → κ) (list : List β) (k : κ) : Option β := list.find? (fun item => key item = k)

/-- The first item with a key is changed. -/
def update [DecidableEq κ] (key : β → κ) (k : κ) (f : β → β) : List β → List β
  | [] => []
  | item :: list => if key item = k then f item :: list else item :: update key k f list

/-- The first item with a key is removed. -/
def remove [DecidableEq κ] (key : β → κ) (k : κ) (list : List β) : List β :=
  list.eraseP (fun item => key item = k)

section Lookup

variable [DecidableEq κ] {k k' : κ} {item : β}

theorem key_of_get (h : get key list k = some item) : key item = k := by
  simpa using find?_some h

theorem mem_of_get (h : get key list k = some item) : item ∈ list := mem_of_find?_eq_some h

theorem get_eq_none : get key list k = none ↔ k ∉ list.map key := by
  unfold get
  rw [find?_eq_none, mem_map]
  constructor
  · rintro h ⟨item, hmem, hkey⟩
    exact h item hmem (by simpa using hkey)
  · intro h item hmem hkey
    exact h ⟨item, hmem, by simpa using hkey⟩

theorem get_of_mem (hnodup : (list.map key).Nodup) (hmem : item ∈ list) : get key list (key item) = some item := by
  cases hget : get key list (key item) with
  | none => exact absurd (mem_map_of_mem hmem) (get_eq_none.mp hget)
  | some other => rw [inj_on_of_nodup_map hnodup (mem_of_get hget) hmem (key_of_get hget)]

theorem get_cons (item : β) (list : List β) (k : κ) :
    get key (item :: list) k = if key item = k then some item else get key list k := by
  unfold get
  by_cases h : key item = k
  · rw [if_pos h, find?_cons_of_pos (by simpa using h)]
  · rw [if_neg h, find?_cons_of_neg (by simpa using h)]

/-- **What is found after an item with a new key.** -/
theorem get_concat (hnone : get key list (key item) = none) (k : κ) :
    get key (list ++ [item]) k = if k = key item then some item else get key list k := by
  induction list with
  | nil =>
    show get key [item] k = _
    rw [get_cons]
    simp only [eq_comm]
  | cons other list ih =>
    rw [get_cons] at hnone
    by_cases hother : key other = key item
    · rw [if_pos hother] at hnone
      cases hnone
    · rw [if_neg hother] at hnone
      rw [cons_append, get_cons, get_cons, ih hnone]
      by_cases hk : k = key item
      · rw [if_pos hk, if_neg (hk ▸ hother), if_pos hk]
      · rw [if_neg hk, if_neg hk]

theorem nodup_update {f : β → β} (hnodup : (list.map key).Nodup) (k : κ) (hf : ∀ item, key (f item) = key item) :
    ((update key k f list).map key).Nodup := by
  have hsame : (update key k f list).map key = list.map key := by
    clear hnodup
    induction list with
    | nil => rfl
    | cons item list ih =>
      unfold update
      split
      · rw [map_cons, map_cons, hf]
      · rw [map_cons, map_cons, ih]
  rw [hsame]
  exact hnodup

/-- **What is found after a change.** -/
theorem get_update {f : β → β} (hget : get key list k = some item) (k' : κ) (hf : ∀ item, key (f item) = key item) :
    get key (update key k f list) k' = if k' = k then some (f item) else get key list k' := by
  induction list with
  | nil => cases hget
  | cons other list ih =>
    rw [get_cons] at hget
    unfold update
    by_cases h : key other = k
    · rw [if_pos h] at hget
      cases hget
      rw [if_pos h, get_cons, get_cons, hf, h]
      by_cases hk : k' = k
      · rw [if_pos hk, if_pos hk.symm]
      · rw [if_neg hk, if_neg (Ne.symm hk), if_neg (Ne.symm hk)]
    · rw [if_neg h] at hget
      rw [if_neg h, get_cons, get_cons, ih hget]
      by_cases hk : k' = k
      · rw [if_pos hk, if_pos hk, hk, if_neg h]
      · rw [if_neg hk, if_neg hk]

theorem nodup_remove (hnodup : (list.map key).Nodup) (k : κ) : ((remove key k list).map key).Nodup :=
  hnodup.sublist (eraseP_sublist.map key)

/-- **What is found after a removal.** -/
theorem get_remove (hnodup : (list.map key).Nodup) (k k' : κ) :
    get key (remove key k list) k' = if k' = k then none else get key list k' := by
  induction list with
  | nil =>
    show none = if k' = k then none else none
    rw [ite_self]
  | cons item list ih =>
    rw [map_cons, nodup_cons] at hnodup
    unfold remove
    by_cases h : key item = k
    · rw [eraseP_cons_of_pos (by simpa using h), get_cons]
      by_cases hk : k' = k
      · rw [if_pos hk, hk]
        exact get_eq_none.mpr (h ▸ hnodup.1)
      · rw [if_neg hk, h, if_neg (Ne.symm hk)]
    · rw [eraseP_cons_of_neg (by simpa using h), get_cons, get_cons]
      show (if key item = k' then some item else get key (remove key k list) k') = _
      rw [ih hnodup.2]
      by_cases hk : k' = k
      · rw [if_pos hk, if_pos hk, hk, if_neg h]
      · rw [if_neg hk, if_neg hk]

end Lookup

end Keyed
