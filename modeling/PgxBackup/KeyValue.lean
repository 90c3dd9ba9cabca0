import Mathlib.Data.List.Basic
import Mathlib.Data.List.Nodup
import Mathlib.Data.Nat.Notation

/-!
# Key values

A store of values by key that keeps the order in which the keys were put. A
key is in it at most once: putting a key that exists replaces its value.
-/

namespace PgxBackup

variable {α β : Type} [DecidableEq α]

/-- The keys in order (`kvKeyList`). -/
def kvKeyList (kv : List (α × β)) : List α := kv.map Prod.fst

/-- The value of a key (`kvGet`). -/
def kvGet : List (α × β) → α → Option β
  | [], _ => none
  | pair :: kv, key => if pair.1 = key then some pair.2 else kvGet kv key

/-- **Put a value** (`kvPut`): if the key was not found then it is added,
else its value is updated. -/
def kvPut : List (α × β) → α → β → List (α × β)
  | [], key, value => [(key, value)]
  | pair :: kv, key, value =>
    if pair.1 = key then (pair.1, value) :: kv else pair :: kvPut kv key value

/-- **Remove a key** (`kvRemove`), if it was found. -/
def kvRemove : List (α × β) → α → List (α × β)
  | [], _ => []
  | pair :: kv, key => if pair.1 = key then kv else pair :: kvRemove kv key

variable {kv : List (α × β)} {key : α}

theorem kvGet_eq_none_iff : kvGet kv key = none ↔ key ∉ kvKeyList kv := by
  induction kv with
  | nil => simp [kvGet, kvKeyList]
  | cons pair kv ih =>
    unfold kvGet
    rw [show kvKeyList (pair :: kv) = pair.1 :: kvKeyList kv from rfl, List.mem_cons]
    by_cases h : pair.1 = key
    · rw [if_pos h]
      simp [h]
    · rw [if_neg h, ih]
      simp [Ne.symm h]

theorem kvPut_of_not_mem (h : key ∉ kvKeyList kv) (value : β) :
    kvPut kv key value = kv ++ [(key, value)] := by
  induction kv with
  | nil => rfl
  | cons pair kv ih =>
    unfold kvKeyList at h
    rw [List.map_cons, List.mem_cons, not_or] at h
    unfold kvPut
    rw [if_neg (Ne.symm h.1), ih h.2]
    rfl

theorem kvGet_kvPut (kv : List (α × β)) (key : α) (value : β) (k : α) :
    kvGet (kvPut kv key value) k = if k = key then some value else kvGet kv k := by
  induction kv with
  | nil =>
    show (if key = k then some value else none) = _
    simp only [eq_comm, kvGet]
  | cons pair kv ih =>
    unfold kvPut
    by_cases hkey : pair.1 = key
    · rw [if_pos hkey]
      show (if pair.1 = k then some value else kvGet kv k) = _
      rw [hkey]
      by_cases hk : k = key
      · rw [if_pos hk, if_pos hk.symm]
      · rw [if_neg hk, if_neg (Ne.symm hk)]
        show kvGet kv k = if pair.1 = k then some pair.2 else kvGet kv k
        rw [hkey, if_neg (Ne.symm hk)]
    · rw [if_neg hkey]
      show (if pair.1 = k then some pair.2 else kvGet (kvPut kv key value) k) = _
      rw [ih]
      by_cases hk : pair.1 = k
      · rw [if_pos hk, if_neg (hk ▸ hkey)]
        exact (if_pos hk).symm
      · rw [if_neg hk]
        show _ = if k = key then some value else if pair.1 = k then some pair.2 else kvGet kv k
        rw [if_neg hk]

theorem mem_kvKeyList_kvPut {value : β} {k : α} (h : k ∈ kvKeyList (kvPut kv key value)) :
    k = key ∨ k ∈ kvKeyList kv := by
  by_contra hnone
  rw [not_or] at hnone
  have hget := kvGet_kvPut kv key value k
  rw [if_neg hnone.1, kvGet_eq_none_iff.mpr hnone.2] at hget
  exact kvGet_eq_none_iff.mp hget h

theorem nodup_kvPut (h : (kvKeyList kv).Nodup) (key : α) (value : β) :
    (kvKeyList (kvPut kv key value)).Nodup := by
  induction kv with
  | nil => exact List.nodup_singleton key
  | cons pair kv ih =>
    rw [show kvKeyList (pair :: kv) = pair.1 :: kvKeyList kv from rfl, List.nodup_cons] at h
    unfold kvPut
    by_cases hkey : pair.1 = key
    · rw [if_pos hkey]
      exact List.nodup_cons.mpr h
    · rw [if_neg hkey]
      refine List.nodup_cons.mpr ⟨fun hmem => ?_, ih h.2⟩
      rcases mem_kvKeyList_kvPut hmem with heq | hold
      · exact hkey heq
      · exact h.1 hold

theorem kvRemove_sublist (kv : List (α × β)) (key : α) : (kvRemove kv key).Sublist kv := by
  induction kv with
  | nil => exact List.Sublist.refl _
  | cons pair kv ih =>
    unfold kvRemove
    split
    · exact List.sublist_cons_self pair kv
    · exact ih.cons_cons pair

theorem nodup_kvRemove (h : (kvKeyList kv).Nodup) (key : α) :
    (kvKeyList (kvRemove kv key)).Nodup :=
  h.sublist ((kvRemove_sublist kv key).map Prod.fst)

theorem kvGet_kvRemove (h : (kvKeyList kv).Nodup) (key k : α) :
    kvGet (kvRemove kv key) k = if k = key then none else kvGet kv k := by
  induction kv with
  | nil => simp [kvRemove, kvGet]
  | cons pair kv ih =>
    rw [show kvKeyList (pair :: kv) = pair.1 :: kvKeyList kv from rfl, List.nodup_cons] at h
    unfold kvRemove
    by_cases hkey : pair.1 = key
    · rw [if_pos hkey]
      by_cases hk : k = key
      · rw [if_pos hk, kvGet_eq_none_iff, hk, ← hkey]
        exact h.1
      · rw [if_neg hk]
        show kvGet kv k = if pair.1 = k then some pair.2 else kvGet kv k
        rw [hkey, if_neg (Ne.symm hk)]
    · rw [if_neg hkey]
      show (if pair.1 = k then some pair.2 else kvGet (kvRemove kv key) k) = _
      rw [ih h.2]
      by_cases hk : pair.1 = k
      · rw [if_pos hk, if_neg (hk ▸ hkey)]
        exact (if_pos hk).symm
      · rw [if_neg hk]
        show _ = if k = key then none else if pair.1 = k then some pair.2 else kvGet kv k
        rw [if_neg hk]

end PgxBackup
