import PgxBackup.ListObject

/-!
# A list is a sequence

The items of a list are a part of its block: before them is what was removed
from the front, after them is room for more. Every operation keeps this
picture, together with what the sort order promises, and makes of the items
what it should make of a sequence. Two operations can leave the picture: a list
that has drifted from the start of its block cannot be cleared, and a list of
2^31 items cannot double.
-/

namespace PgxBackup

open List

open Blocks (Ptr At)

variable {α : Type}

/-! ## The sequence -/

/-- The sequence that a list stands for, and the comparator in use. -/
structure ListSeq (α : Type) where
  items : List α
  comparator : Option (ListComparator α)

/-- Where an item that equals this one was found, if there is one. -/
def FoundAt (comparator : ListComparator α) (items : List α) (item : α) : Option ℕ → Prop
  | some i => ∃ found, items[i]? = some found ∧ comparator.compare item found = 0
  | none => ∀ other ∈ items, comparator.compare item other ≠ 0

def SortedBy (comparator : ListComparator α) : Option SortOrder → List α → Prop
  | none, _ => True
  | some .asc, items => items.Pairwise (fun a b => comparator.compare a b ≤ 0)
  | some .desc, items => items.Pairwise (fun a b => comparator.desc.compare a b ≤ 0)

/-- **What an operation makes of a sequence**, and what it returns. An item is
removed at one of the places where there is an equal one; a sort leaves the
order of equal items open. -/
def SeqStep (seq : ListSeq α) (result : ListResult) (next : ListSeq α) : ListOp α → Prop
  | .add item => result = .done ∧ next = { seq with items := seq.items ++ [item] }
  | .insert listIdx item => result = .done ∧ next = { seq with items := seq.items.insertIdx listIdx item }
  | .removeIdx listIdx => result = .done ∧ next = { seq with items := seq.items.eraseIdx listIdx }
  | .remove item => ∃ comparator found, seq.comparator = some comparator ∧ FoundAt comparator seq.items item found ∧
      result = .removed found.isSome ∧ next = { seq with items := found.elim seq.items seq.items.eraseIdx }
  | .sort sortOrder => ∃ comparator, seq.comparator = some comparator ∧ result = .done ∧
      next.comparator = seq.comparator ∧ next.items.Perm seq.items ∧ SortedBy comparator sortOrder next.items ∧
      (sortOrder = none → next.items = seq.items)
  | .comparatorSet comparator => result = .done ∧ next = { seq with comparator := comparator }
  | .find item => ∃ comparator found, seq.comparator = some comparator ∧ FoundAt comparator seq.items item found ∧
      result = .found found ∧ next = seq
  | .clear => result = .done ∧ next = { seq with items := [] }

/-- The index of the operation is in range for this many items. -/
def OpInRange (size : ℕ) : ListOp α → Prop
  | .insert listIdx _ => listIdx ≤ size
  | .removeIdx listIdx => listIdx < size
  | _ => True

/-- The items that `lstGet` shows are those of the sequence. -/
structure ListShows (this : ListObject α) (seq : ListSeq α) : Prop where
  size : this.listSize = seq.items.length
  comparator : this.comparator = seq.comparator
  get : ∀ i item, seq.items[i]? = some item → ∃ p, this.lstGet i = .ok p ∧ readItem this p = .ok item

/-! ## The picture -/

/-- The largest number of items there can be room for. -/
def LIST_SIZE_MAX : ℕ := 2 ^ 31

/-- These items are kept in the block, starting at this pointer. -/
structure Stored (this : ListObject α) (items : List α) (list : Ptr) (before after : List (Option α)) : Prop where
  start : this.list = some list
  alloc : this.listAlloc = some ⟨list.block, 0⟩
  cells : At this.heap list before (items.map some) after
  max : this.listSizeMax = before.length + items.length + after.length
  size : this.listSize = items.length
  power : ∃ k ≤ 28, this.listSizeMax = 8 * 2 ^ k

/-- No block is allocated. -/
structure Unallocated (this : ListObject α) (items : List α) : Prop where
  start : this.list = none
  max : this.listSizeMax = 0
  size : this.listSize = 0
  items : items = []

/-- **The invariant of a list** that stands for a sequence. -/
structure ListInv (this : ListObject α) (seq : ListSeq α) : Prop where
  comparator : this.comparator = seq.comparator
  sorted : ∀ comparator, seq.comparator = some comparator → SortedBy comparator this.sortOrder seq.items
  storage : Unallocated this seq.items ∨ ∃ list before after, Stored this seq.items list before after

variable {this : ListObject α} {seq : ListSeq α}

theorem ListInv.size (h : ListInv this seq) :
    this.listSize = seq.items.length := by
  rcases h.storage with h | ⟨list, before, after, h⟩
  · rw [h.size, h.items]
    rfl
  · exact h.size

theorem Stored.max_le {items : List α} {list : Ptr} {before after : List (Option α)}
    (h : Stored this items list before after) : this.listSizeMax ≤ LIST_SIZE_MAX := by
  obtain ⟨k, hk, hmax⟩ := h.power
  rw [hmax]
  exact Nat.mul_le_mul_left 8 (Nat.pow_le_pow_right (by decide) hk)

theorem Stored.max_pos {items : List α} {list : Ptr} {before after : List (Option α)}
    (h : Stored this items list before after) : 0 < this.listSizeMax := by
  obtain ⟨k, -, hmax⟩ := h.power
  rw [hmax]
  exact Nat.mul_pos (by decide) (Nat.two_pow_pos k)

/-! ## What is read -/

variable {this : ListObject α} {items : List α} {list : Ptr} {before after : List (Option α)}

theorem mapM_map_some (items : List α) : (items.map some).mapM id = some items := by
  induction items with
  | nil => rfl
  | cons item items ih =>
    rw [map_cons, mapM_cons, ih]
    rfl

theorem Stored.read_items (h : Stored this items list before after) :
    readItems this list this.listSize = .ok items := by
  have hload := h.cells.load
  rw [length_map] at hload
  unfold readItems
  rw [h.size, hload]
  dsimp only [memory, bind, Except.bind]
  rw [mapM_map_some]

theorem Stored.read_item (h : Stored this items list before after) {i : ℕ} {item : α} (hi : items[i]? = some item) :
    readItem this (list.add i) = .ok item := by
  obtain ⟨hlt, hget⟩ := List.getElem?_eq_some_iff.mp hi
  have hcells : At this.heap (list.add i) (before ++ (items.take i).map some) [some item]
      ((items.drop (i + 1)).map some ++ after) := by
    refine h.cells.shift _ rfl ?_ ?_
    · show _ = list.offset + i
      rw [length_append, length_map, length_take, Nat.min_eq_left hlt.le, h.cells.offset]
    · have hsplit : items = items.take i ++ item :: items.drop (i + 1) := by
        rw [← hget, ← drop_eq_getElem_cons hlt, take_append_drop]
      conv_rhs => rw [hsplit]
      simp
  unfold readItem
  rw [show 1 = [some item].length from rfl, hcells.load]
  rfl

/-- **The picture shows the items.** -/
theorem ListInv.shows (h : ListInv this seq) : ListShows this seq := by
  refine ⟨h.size, h.comparator, fun i item hi => ?_⟩
  have hlt := (List.getElem?_eq_some_iff.mp hi).1
  rcases h.storage with hnone | ⟨list, before, after, hstored⟩
  · rw [hnone.items] at hlt
    exact absurd hlt (Nat.not_lt_zero i)
  · refine ⟨list.add i, ?_, hstored.read_item hi⟩
    unfold ListObject.lstGet
    rw [if_neg (not_le.mpr (hstored.size ▸ hlt)), hstored.start]
    rfl

/-! ## Find -/

theorem ListComparator.sorted_search (comparator : ListComparator α)
    (hsorted : items.Pairwise (fun a b => comparator.compare a b ≤ 0)) (item : α) :
    BinarySearch.Sorted (comparator.compare item) items := by
  refine hsorted.imp fun {a b} hab => ⟨fun hlt => ?_, fun hlt => ?_⟩
  · by_contra hge
    have hba : comparator.compare b item ≤ 0 := not_lt.mp fun h => hge ((comparator.lt_iff item b).mpr h)
    have hle := comparator.trans a b item hab hba
    exact absurd ((comparator.lt_iff item a).mp hlt) (not_lt.mpr hle)
  · by_contra hle
    exact absurd hlt (not_lt.mpr (comparator.trans item a b (not_lt.mp hle) hab))

/-- In the other direction the same items compare equal. -/
theorem ListComparator.desc_eq_zero (comparator : ListComparator α) (a b : α) :
    comparator.desc.compare a b = 0 ↔ comparator.compare a b = 0 := by
  have hab := comparator.lt_iff a b
  have hba := comparator.lt_iff b a
  show comparator.compare b a = 0 ↔ _
  omega

theorem foundAt_bsearch {comparator : ListComparator α}
    (hsorted : items.Pairwise (fun a b => comparator.compare a b ≤ 0)) (item : α) :
    FoundAt comparator items item (BinarySearch.bsearch (comparator.compare item) items) := by
  have hsome := BinarySearch.bsearch_isSome_iff (comparator.sorted_search hsorted item)
  cases hfound : BinarySearch.bsearch (comparator.compare item) items with
  | some i => exact BinarySearch.bsearch_some hfound
  | none =>
    rw [hfound] at hsome
    exact fun other hmem hequal => absurd (hsome.mpr ⟨other, hmem, hequal⟩) nofun

theorem Stored.findLoop (h : Stored this items list before after) (comparator : ListComparator α) (item : α)
    {left listIdx : ℕ} (hleft : listIdx + left = items.length)
    (hbefore : ∀ i < listIdx, ∀ other, items[i]? = some other → comparator.compare item other ≠ 0) :
    ∃ found, lstFindLoop this comparator item left listIdx = .ok (found.map list.add) ∧
      FoundAt comparator items item found := by
  induction left generalizing listIdx with
  | zero =>
    refine ⟨none, rfl, fun other hmem => ?_⟩
    obtain ⟨i, hi⟩ := getElem?_of_mem hmem
    exact hbefore i (by rw [Nat.add_zero] at hleft; exact hleft ▸ (List.getElem?_eq_some_iff.mp hi).1) other hi
  | succ left ih =>
    have hlt : listIdx < items.length := by omega
    have hget := getElem?_eq_getElem hlt
    have hptr : this.lstGet listIdx = .ok (list.add listIdx) := by
      unfold ListObject.lstGet
      rw [if_neg (not_le.mpr (h.size ▸ hlt)), h.start]
      rfl
    unfold lstFindLoop
    rw [hptr, ok_bind, h.read_item hget, ok_bind]
    by_cases hequal : comparator.compare item items[listIdx] = 0
    · exact ⟨some listIdx, if_pos hequal, items[listIdx], hget, hequal⟩
    · rw [if_neg hequal]
      refine ih (by omega) fun i hi other hother => ?_
      rcases Nat.lt_succ_iff_lt_or_eq.mp hi with hi | rfl
      · exact hbefore i hi other hother
      · rwa [← Option.some.inj (hget.symm.trans hother)]

variable {comparator : ListComparator α} {listIdx : ℕ}

/-- **The search finds an equal item if and only if there is one.** -/
theorem ListInv.findIdx (h : ListInv this seq)
    (hcomparator : seq.comparator = some comparator) (item : α) :
    ∃ found, lstFindIdx this item = .ok found ∧ FoundAt comparator seq.items item found := by
  have hthis : this.comparator = some comparator := h.comparator.trans hcomparator
  rcases h.storage with hnone | ⟨list, before, after, hstored⟩
  · refine ⟨none, ?_, fun other hmem => absurd (hnone.items ▸ hmem) not_mem_nil⟩
    unfold lstFindIdx lstFind
    rw [hthis, hnone.start]
    rfl
  · have hptr {found : Option ℕ} (hfind : lstFind this item = .ok (found.map list.add)) :
        lstFindIdx this item = .ok found := by
      unfold lstFindIdx
      rw [hfind]
      cases found with
      | none => rfl
      | some i =>
        show (do .ok (some (← lstIdx this (list.add i))) : Except ListStop (Option ℕ)) = _
        unfold lstIdx
        rw [hstored.start]
        show Except.ok (some (list.offset + i - list.offset)) = _
        rw [Nat.add_sub_cancel_left]
    have hsorted := h.sorted comparator hcomparator
    have hitems := hstored.read_items
    have hfind := Eq.refl (lstFind this item)
    conv_rhs at hfind =>
      unfold lstFind
      rw [hthis, hstored.start]
      dsimp only
      rw [hitems]
    cases hsort : this.sortOrder with
    | none =>
      rw [hsort] at hfind
      obtain ⟨found, hloop, hfound⟩ := @Stored.findLoop _ _ _ _ _ _ hstored comparator item
        seq.items.length 0 (Nat.zero_add _) fun i hi => absurd hi (Nat.not_lt_zero i)
      rw [hstored.size, hloop] at hfind
      exact ⟨found, hptr hfind, hfound⟩
    | some sortOrder =>
      rw [hsort] at hfind hsorted
      cases sortOrder with
      | asc => exact ⟨_, hptr hfind, foundAt_bsearch hsorted item⟩
      | desc =>
        refine ⟨_, hptr hfind, ?_⟩
        have hfound := @foundAt_bsearch _ _ comparator.desc hsorted item
        revert hfound
        cases BinarySearch.bsearch (comparator.desc.compare item) seq.items with
        | none => exact fun hfound other hmem hequal => hfound other hmem ((comparator.desc_eq_zero item other).mpr hequal)
        | some i =>
          rintro ⟨other, hi, hequal⟩
          exact ⟨other, hi, (comparator.desc_eq_zero item other).mp hequal⟩

/-! ## Insert -/

theorem insertIdx_append (front back : List α) (item : α) :
    (front ++ back).insertIdx front.length item = front ++ item :: back := by
  induction front with
  | nil => rfl
  | cons a front ih => exact congrArg (a :: ·) ih

theorem Unallocated.grow (h : Unallocated this items) :
    ∃ next list cell after, lstInsertGrow this = .ok next ∧ next.comparator = this.comparator ∧
      Stored next items list [] (cell :: after) := by
  have hgrow : lstInsertGrow this = .ok { this with
      heap := (this.heap.new (replicate LIST_INITIAL_SIZE none)).1
      list := some (this.heap.new (replicate LIST_INITIAL_SIZE none)).2
      listSizeMax := LIST_INITIAL_SIZE
      listAlloc := some (this.heap.new (replicate LIST_INITIAL_SIZE none)).2 } := by
    unfold lstInsertGrow
    rw [if_pos (h.size.trans h.max.symm), if_pos h.max]
  have hcells := Blocks.at_new this.heap (replicate LIST_INITIAL_SIZE (none : Option α))
  rw [h.items]
  exact ⟨_, _, none, replicate 7 none, hgrow, rfl, rfl, rfl, hcells.shift _ rfl rfl rfl, rfl, h.size,
    0, by decide, rfl⟩

/-- The block is full, so the list starts where the block does, and the block
can be extended. -/
theorem Stored.grow_full (h : Stored this items list before after) (hfull : this.listSize = this.listSizeMax)
    (hsize : items.length < LIST_SIZE_MAX) :
    ∃ next list cell after, lstInsertGrow this = .ok next ∧ next.comparator = this.comparator ∧
      Stored next items list [] (cell :: after) := by
  have hmax := h.max
  have hlength := h.size
  have hle : LIST_SIZE_MAX = 2147483648 := rfl
  obtain rfl : before = [] := length_eq_zero_iff.mp (by omega)
  obtain rfl : after = [] := length_eq_zero_iff.mp (by omega)
  obtain ⟨k, hk, hpower⟩ := h.power
  have hpos := h.max_pos
  have hk' : k < 28 := by
    refine lt_of_le_of_ne hk ?_
    rintro rfl
    omega
  have hdouble : this.listSizeMax * 2 % 2 ^ 32 = this.listSizeMax * 2 := Nat.mod_eq_of_lt (by omega)
  obtain ⟨heap, q, hresize, hq, hcells⟩ :=
    h.cells.resize (this.listSizeMax * 2) none
  rw [take_of_length_le (by rw [length_map]; omega)] at hcells
  have hgrow : lstInsertGrow this = .ok { this with
      heap := heap, list := some q, listSizeMax := this.listSizeMax * 2, listAlloc := some q } := by
    unfold lstInsertGrow
    rw [if_pos hfull, if_neg hpos.ne', h.start, hdouble]
    show (memory (this.heap.resize list (this.listSizeMax * 2) none) >>= _) = _
    rw [hresize]
    rfl
  rw [length_map, show this.listSizeMax * 2 - items.length = (this.listSizeMax - 1) + 1 by omega,
    replicate_succ] at hcells
  refine ⟨_, q, none, _, hgrow, rfl, rfl, congrArg some ?_, hcells, ?_, hlength, k + 1, hk', ?_⟩
  · exact congrArg (Ptr.mk q.block) hq
  · show this.listSizeMax * 2 = _
    rw [length_nil, length_cons, length_replicate]
    omega
  · show this.listSizeMax * 2 = _
    rw [hpower, Nat.pow_succ, Nat.mul_assoc]

/-- There is room before the items only, and they are moved to the start of the
block. -/
theorem Stored.grow_move (h : Stored this items list before []) (hfull : this.listSize ≠ this.listSizeMax) :
    ∃ next list cell after, lstInsertGrow this = .ok next ∧ next.comparator = this.comparator ∧
      Stored next items list [] (cell :: after) := by
  have hmax := h.max
  have hlength := h.size
  have hoffset := h.cells.offset
  rw [length_nil, Nat.add_zero] at hmax
  have hbefore : 0 < before.length := by omega
  have hdrift : lstDrift this = before.length := by
    unfold lstDrift
    rw [h.start, h.alloc]
    exact hoffset.symm
  have hne : this.list ≠ this.listAlloc := by
    rw [h.start, h.alloc]
    intro heq
    have hzero : list.offset = 0 := congrArg Ptr.offset (Option.some.inj heq)
    omega
  -- The cells of the block, cut after as many as there are items.
  obtain ⟨first, rest, hsplit, hfirst⟩ :
      ∃ first rest, before ++ items.map some = first ++ rest ∧ first.length = items.length :=
    ⟨_, _, (take_append_drop items.length _).symm, by
      rw [length_take, length_append, length_map]; omega⟩
  have hrest : rest.length = before.length := by
    have hlengths := congrArg length hsplit
    rw [length_append, length_append, length_map] at hlengths
    omega
  have hcells : At this.heap ⟨list.block, 0⟩ [] first rest :=
    h.cells.shift _ rfl rfl (by rw [append_nil, hsplit]; rfl)
  obtain ⟨heap, hstore, hnext⟩ := @At.store _ _ _ _ _ _ (items.map some) hcells (by rw [length_map, hfirst])
  have hgrow : lstInsertGrow this = .ok { this with heap := heap, list := this.listAlloc } := by
    have hload := h.cells.load
    rw [length_map] at hload
    unfold lstInsertGrow
    rw [if_neg hfull, if_pos ⟨hne, by rw [hdrift, hlength]; omega⟩, h.alloc, h.start]
    show (memory (this.heap.load list this.listSize >>= this.heap.store ⟨list.block, 0⟩) >>= _) = _
    rw [hlength, hload, ok_bind, hstore]
    rfl
  obtain ⟨cell, after, rfl⟩ : ∃ cell after, rest = cell :: after :=
    exists_cons_of_length_pos (hrest ▸ hbefore)
  refine ⟨_, _, cell, after, hgrow, rfl, h.alloc, h.alloc, hnext, ?_, hlength, h.power⟩
  show this.listSizeMax = 0 + items.length + (cell :: after).length
  omega

/-- **There is room behind the items** after the first part of an insertion,
unless the list has as many items as it can have. -/
theorem ListInv.grow (h : ListInv this seq) (hsize : seq.items.length < LIST_SIZE_MAX) :
    ∃ next list before cell after, lstInsertGrow this = .ok next ∧ next.comparator = this.comparator ∧
      Stored next seq.items list before (cell :: after) := by
  rcases h.storage with hnone | ⟨list, before, after, hstored⟩
  · obtain ⟨next, list, cell, after, hgrow⟩ := hnone.grow
    exact ⟨next, list, [], cell, after, hgrow⟩
  · by_cases hfull : this.listSize = this.listSizeMax
    · obtain ⟨next, list, cell, after, hgrow⟩ := hstored.grow_full hfull hsize
      exact ⟨next, list, [], cell, after, hgrow⟩
    · cases after with
      | nil =>
        obtain ⟨next, list, cell, after, hgrow⟩ := hstored.grow_move hfull
        exact ⟨next, list, [], cell, after, hgrow⟩
      | cons cell after =>
        refine ⟨this, list, before, cell, after, ?_, rfl, hstored⟩
        have hmax := hstored.max
        have hlength := hstored.size
        have hdrift : lstDrift this = before.length := by
          unfold lstDrift
          rw [hstored.start, hstored.alloc]
          exact hstored.cells.offset.symm
        rw [length_cons] at hmax
        unfold lstInsertGrow
        rw [if_neg hfull, if_neg fun hmove => by have := hmove.2; omega]

/-- Items are moved down by one, and the new one is written in front of
them. -/
theorem Stored.insertAt {front back : List α} {cell : Option α}
    (h : Stored this (front ++ back) list before (cell :: after)) (hsize : (front ++ back).length < LIST_SIZE_MAX)
    (item : α) :
    ∃ heap next, lstInsertMove this list front.length = .ok heap ∧
      heap.store (list.add front.length) [some item] = .ok next ∧
      At next list before ((front ++ item :: back).map some) after := by
  have hle : LIST_SIZE_MAX = 2147483648 := rfl
  have hlength := h.size
  have hoffset := h.cells.offset
  rw [length_append] at hlength hsize
  -- The cells behind the new item, and the one before them that is free then.
  obtain ⟨hd, tl, hcut, htl⟩ : ∃ hd tl, back.map some ++ [cell] = hd :: tl ∧ tl.length = (back.map some).length := by
    obtain ⟨hd, tl, hcut⟩ := @exists_cons_of_length_pos _ (back.map some ++ [cell])
      (by rw [length_append]; exact Nat.succ_pos _)
    refine ⟨hd, tl, hcut, ?_⟩
    have hlengths := congrArg length hcut
    rw [length_append, length_cons] at hlengths
    exact (Nat.succ.inj hlengths).symm
  have hmoved : ∃ heap, lstInsertMove this list front.length = .ok heap ∧
      At heap (list.add front.length) (before ++ front.map some) [hd] (back.map some ++ after) := by
    unfold lstInsertMove
    by_cases hend : back = []
    · subst hend
      obtain ⟨rfl, rfl⟩ : cell = hd ∧ tl = [] := by
        injection hcut with h1 h2
        exact ⟨h1, h2.symm⟩
      refine ⟨this.heap, if_neg (not_not.mpr hlength.symm), h.cells.shift _ rfl ?_ ?_⟩
      · show _ = list.offset + _
        rw [length_append, length_map, hoffset]
      · simp
    · have hpos : 0 < back.length := length_pos_iff.mpr hend
      have hsource : At this.heap (list.add front.length) (before ++ front.map some) (back.map some) (cell :: after) := by
        refine h.cells.shift _ rfl ?_ (by simp)
        show _ = list.offset + _
        rw [length_append, length_map, hoffset]
      have hdest : At this.heap (list.add (front.length + 1)) (before ++ front.map some ++ [hd]) tl after := by
        refine h.cells.shift _ rfl ?_ ?_
        · show _ = list.offset + (_ + 1)
          rw [length_append, length_append, length_map, hoffset]
          rfl
        · have hcells : before ++ front.map some ++ (back.map some ++ [cell]) ++ after
              = before ++ (front ++ back).map some ++ cell :: after := by simp
          rw [← hcells, hcut]
          simp
      obtain ⟨heap, hstore, hnext⟩ := @At.store _ _ _ _ _ _ (back.map some) hdest htl.symm
      refine ⟨heap, ?_, hnext.shift _ rfl hsource.offset (by simp)⟩
      have hload := hsource.load
      rw [length_map] at hload
      rw [if_pos (by omega), Nat.mod_eq_of_lt (by omega), show this.listSize - front.length = back.length by omega]
      show memory (this.heap.load _ _ >>= this.heap.store _) = _
      rw [hload, ok_bind, hstore]
      rfl
  obtain ⟨heap, hmove, hcells⟩ := hmoved
  obtain ⟨next, hstore, hnext⟩ := @At.store _ _ _ _ _ _ [some item] hcells rfl
  exact ⟨heap, next, hmove, hstore, hnext.shift _ rfl hoffset (by simp)⟩

/-- **An item is inserted** where it should be. -/
theorem ListInv.insert (h : ListInv this seq) (hsize : seq.items.length < LIST_SIZE_MAX)
    (hidx : listIdx ≤ seq.items.length) (item : α) :
    ∃ next, lstInsert this listIdx item = .ok next ∧
      ListInv next { seq with items := seq.items.insertIdx listIdx item } := by
  obtain ⟨grown, list, before, cell, after, hgrow, hcomparator, hstored⟩ := h.grow hsize
  obtain ⟨front, back, hitems, hfront⟩ : ∃ front back, seq.items = front ++ back ∧ front.length = listIdx :=
    ⟨_, _, (take_append_drop listIdx _).symm, by rw [length_take, Nat.min_eq_left hidx]⟩
  rw [hitems] at hstored hsize
  obtain ⟨heap, next, hmove, hstore, hcells⟩ := hstored.insertAt hsize item
  rw [hfront] at hmove hstore
  have hle : LIST_SIZE_MAX = 2147483648 := rfl
  have hlength := hstored.size
  have hmax := hstored.max
  have hmod : (grown.listSize + 1) % 2 ^ 32 = grown.listSize + 1 := Nat.mod_eq_of_lt (by omega)
  refine ⟨{ grown with heap := next, sortOrder := none, listSize := (grown.listSize + 1) % 2 ^ 32 }, ?_, ?_⟩
  · have hassert : assertThat (listIdx ≤ this.listSize) = .ok () := if_pos (h.size ▸ hidx)
    unfold lstInsert
    rw [hassert, ok_bind, hgrow, ok_bind, hstored.start]
    show (lstInsertMove grown list listIdx >>= fun heap => _) = _
    rw [hmove, ok_bind, hstore]
    rfl
  · have hinsert : seq.items.insertIdx listIdx item = front ++ item :: back := by
      rw [hitems, ← hfront, insertIdx_append]
    refine ⟨hcomparator.trans h.comparator, fun _ _ => trivial, .inr ⟨list, before, after, ?_⟩⟩
    show Stored _ (seq.items.insertIdx listIdx item) _ _ _
    rw [hinsert]
    refine ⟨hstored.start, hstored.alloc, hcells, hmax.trans ?_, hmod.trans ?_, hstored.power⟩
    · rw [length_append, length_append, length_cons, length_cons]
      omega
    · rw [hlength, length_append, length_append, length_cons]
      omega

/-! ## Remove -/

theorem SortedBy.sublist {sortOrder : Option SortOrder} {items less : List α}
    (h : SortedBy comparator sortOrder items) (hless : less.Sublist items) : SortedBy comparator sortOrder less := by
  cases sortOrder with
  | none => trivial
  | some sortOrder =>
    cases sortOrder with
    | asc | desc => exact List.Pairwise.sublist hless h

theorem SortedBy.nil (comparator : ListComparator α) (sortOrder : Option SortOrder) :
    SortedBy comparator sortOrder [] := by
  cases sortOrder with
  | none => trivial
  | some sortOrder =>
    cases sortOrder with
    | asc | desc => exact List.Pairwise.nil

/-- The items behind the one that is removed are moved up by one. -/
theorem Stored.removeAt {front back : List α} {item : α} (h : Stored this (front ++ item :: back) list before after)
    (hfront : front ≠ []) (hsize : this.listSize < 2 ^ 32) :
    ∃ next last, lstRemoveIdx this front.length = .ok next ∧ next.comparator = this.comparator ∧
      next.sortOrder = this.sortOrder ∧ Stored next (front ++ back) list before (last :: after) := by
  have hlength := h.size
  have hoffset := h.cells.offset
  rw [length_append, length_cons] at hlength
  have hpos : 0 < front.length := length_pos_iff.mpr hfront
  have hsource : At this.heap (list.add (front.length + 1)) (before ++ front.map some ++ [some item]) (back.map some)
      after := by
    refine h.cells.shift _ rfl ?_ (by simp)
    show _ = list.offset + (_ + 1)
    rw [length_append, length_append, length_map, hoffset]
    rfl
  -- As many cells as there are items behind, from the one that is removed on.
  obtain ⟨first, last, hcut⟩ : ∃ first last, some item :: back.map some = first ++ [last] :=
    ⟨_, _, (dropLast_append_getLast (cons_ne_nil _ _)).symm⟩
  have hfirst : (back.map some).length = first.length := by
    have hlengths := congrArg length hcut
    rw [length_cons, length_append] at hlengths
    exact Nat.succ.inj hlengths
  have hdest : At this.heap (list.add front.length) (before ++ front.map some) first (last :: after) := by
    refine h.cells.shift _ rfl ?_ ?_
    · show _ = list.offset + _
      rw [length_append, length_map, hoffset]
    · have hcells : before ++ front.map some ++ (some item :: back.map some) ++ after
          = before ++ (front ++ item :: back).map some ++ after := by simp
      rw [← hcells, hcut]
      simp
  obtain ⟨heap, hstore, hnext⟩ := @At.store _ _ _ _ _ _ (back.map some) hdest hfirst
  have hmod : (this.listSize + (2 ^ 32 - 1)) % 2 ^ 32 = this.listSize - 1 := by omega
  refine ⟨{ this with heap := heap, listSize := this.listSize - 1 }, last, ?_, rfl, rfl, h.start, h.alloc,
    hnext.shift _ rfl hoffset (by simp), ?_, ?_, h.power⟩
  · have hassert : assertThat (front.length ≤ this.listSize) = .ok () := if_pos (by omega)
    have hload := hsource.load
    rw [length_map] at hload
    unfold lstRemoveIdx
    rw [hassert, ok_bind, hmod, h.start]
    show (if front.length = 0 then _ else
      memory (this.heap.load (list.add ((front.length + 1) % 2 ^ 32)) (this.listSize - 1 - front.length)
        >>= this.heap.store (list.add front.length)) >>= _) = _
    rw [if_neg hpos.ne', Nat.mod_eq_of_lt (by omega), show this.listSize - 1 - front.length = back.length by omega,
      hload, ok_bind, hstore]
    rfl
  · have hmax := h.max
    rw [length_append, length_cons] at hmax
    rw [length_append, length_cons]
    show this.listSizeMax = _
    omega
  · rw [length_append]
    show this.listSize - 1 = _
    omega

/-- **The item at an index is removed.** -/
theorem ListInv.removeIdx (h : ListInv this seq) (hidx : listIdx < seq.items.length) :
    ∃ next, lstRemoveIdx this listIdx = .ok next ∧
      ListInv next { seq with items := seq.items.eraseIdx listIdx } := by
  have hsorted {next : ListObject α} (hsort : next.sortOrder = this.sortOrder) : ∀ comparator,
      seq.comparator = some comparator → SortedBy comparator next.sortOrder (seq.items.eraseIdx listIdx) := by
    intro comparator hcomparator
    rw [hsort]
    exact (h.sorted comparator hcomparator).sublist (eraseIdx_sublist _ _)
  rcases h.storage with hnone | ⟨list, before, after, hstored⟩
  · rw [hnone.items] at hidx
    exact absurd hidx (Nat.not_lt_zero _)
  · have hle : LIST_SIZE_MAX = 2147483648 := rfl
    have hmaxle := hstored.max_le
    have hmax := hstored.max
    have hlength := hstored.size
    obtain ⟨front, item, back, hitems, hfront⟩ :
        ∃ front item back, seq.items = front ++ item :: back ∧ front.length = listIdx :=
      ⟨seq.items.take listIdx, seq.items[listIdx], seq.items.drop (listIdx + 1),
        by rw [← drop_eq_getElem_cons hidx, take_append_drop],
        by rw [length_take, Nat.min_eq_left hidx.le]⟩
    have herase : seq.items.eraseIdx listIdx = front ++ back := by
      rw [hitems, ← hfront, eraseIdx_append_of_length_le le_rfl, Nat.sub_self, eraseIdx_zero, tail_cons]
    by_cases hzero : listIdx = 0
    · -- The first item is removed by starting after it.
      subst hzero
      obtain rfl : front = [] := length_eq_zero_iff.mp hfront
      have hmod : (this.listSize + (2 ^ 32 - 1)) % 2 ^ 32 = this.listSize - 1 := by omega
      refine ⟨{ this with list := some (list.add 1), listSize := this.listSize - 1 }, ?_, h.comparator, hsorted rfl,
        .inr ⟨list.add 1, before ++ [some item], after, rfl, hstored.alloc, ?_, ?_, ?_, hstored.power⟩⟩
      · unfold lstRemoveIdx
        rw [show assertThat (0 ≤ this.listSize) = .ok () from if_pos (Nat.zero_le _), hmod, hstored.start]
        rfl
      · show At this.heap _ _ ((seq.items.eraseIdx 0).map some) _
        rw [herase]
        refine hstored.cells.shift _ rfl ?_ (by rw [hitems]; simp)
        show _ = list.offset + 1
        rw [length_append, hstored.cells.offset]
        rfl
      · show this.listSizeMax = _ + (seq.items.eraseIdx 0).length + _
        rw [herase, hmax, hitems, length_append, length_append, length_append, length_cons]
        show _ = _ + 1 + _ + _
        omega
      · show this.listSize - 1 = (seq.items.eraseIdx 0).length
        rw [herase, hlength, hitems, length_append, length_append, length_cons]
        rfl
    · rw [hitems] at hstored
      obtain ⟨next, last, hremove, hcomparator, hsort, hnext⟩ :=
        hstored.removeAt (by rintro rfl; exact hzero hfront.symm) (by omega)
      rw [hfront] at hremove
      rw [← herase] at hnext
      exact ⟨next, hremove, hcomparator.trans h.comparator, hsorted hsort, .inr ⟨list, before, _, hnext⟩⟩

theorem ListInv.remove (h : ListInv this seq)
    (hcomparator : seq.comparator = some comparator) (item : α) :
    ∃ found next, lstRemove this item = .ok (found.isSome, next) ∧ FoundAt comparator seq.items item found ∧
      ListInv next { seq with items := found.elim seq.items seq.items.eraseIdx } := by
  obtain ⟨found, hfind, hfound⟩ := h.findIdx hcomparator item
  unfold lstRemove
  rw [hfind]
  cases found with
  | none => exact ⟨none, this, rfl, hfound, h⟩
  | some listIdx =>
    have hidx : listIdx < seq.items.length := by
      obtain ⟨other, hget, -⟩ := hfound
      exact (List.getElem?_eq_some_iff.mp hget).1
    obtain ⟨next, hremove, hnext⟩ := h.removeIdx hidx
    refine ⟨some listIdx, next, ?_, hfound, hnext⟩
    show (lstRemoveIdx this listIdx >>= fun next => Except.ok (true, next)) = _
    rw [hremove]
    rfl

/-! ## Sort and clear -/

theorem Stored.qsort (h : Stored this items list before after) (qsort : Qsort α) (comparator : ListComparator α) :
    ∃ next, lstQsort qsort this comparator list = .ok next ∧ next.comparator = this.comparator ∧
      Stored next (qsort.sort comparator items) list before after := by
  have hlength := (qsort.perm comparator items).length_eq
  obtain ⟨heap, hstore, hcells⟩ := @At.store _ _ _ _ _ _ ((qsort.sort comparator items).map some) h.cells
    (by rw [length_map, length_map, hlength])
  refine ⟨{ this with heap := heap }, ?_, rfl, h.start, h.alloc, hcells, hlength ▸ h.max, hlength ▸ h.size, h.power⟩
  unfold lstQsort
  rw [h.read_items, ok_bind, hstore]
  rfl

/-- **A sort** puts the items in the order asked for. -/
theorem ListInv.sort (h : ListInv this seq)
    (hcomparator : seq.comparator = some comparator) (qsort : Qsort α) (sortOrder : Option SortOrder) :
    ∃ next items, lstSort qsort this sortOrder = .ok next ∧ items.Perm seq.items ∧
      SortedBy comparator sortOrder items ∧ (sortOrder = none → items = seq.items) ∧
      ListInv next { seq with items := items } := by
  have hthis := h.comparator.trans hcomparator
  have hdone {next : ListObject α} {items : List α} (hnext : next.comparator = this.comparator)
      (hsorted : SortedBy comparator sortOrder items)
      (hstorage : Unallocated next items ∨ ∃ list before after, Stored next items list before after) :
      ListInv { next with sortOrder := sortOrder } { seq with items := items } := by
    refine ⟨hnext.trans h.comparator, fun other hother => ?_, ?_⟩
    · cases hcomparator.symm.trans hother
      exact hsorted
    · rcases hstorage with ⟨hstart, hmax, hsize, hnil⟩ | ⟨list, before, after, hs⟩
      · exact .inl ⟨hstart, hmax, hsize, hnil⟩
      · exact .inr ⟨list, before, after, hs.start, hs.alloc, hs.cells, hs.max, hs.size, hs.power⟩
  unfold lstSort
  rw [hthis]
  rcases h.storage with hnone | ⟨list, before, after, hstored⟩
  · rw [hnone.start]
    refine ⟨_, seq.items, rfl, List.Perm.refl _, ?_, fun _ => rfl, hdone rfl ?_ (.inl hnone)⟩
    · rw [hnone.items]
      exact SortedBy.nil comparator sortOrder
    · rw [hnone.items]
      exact SortedBy.nil comparator sortOrder
  · rw [hstored.start]
    cases sortOrder with
    | none => exact ⟨_, seq.items, rfl, List.Perm.refl _, trivial, fun _ => rfl, hdone rfl trivial h.storage⟩
    | some sortOrder =>
      cases sortOrder with
      | asc =>
        obtain ⟨next, hsort, hnext, hstorage⟩ := hstored.qsort qsort comparator
        have hsorted : SortedBy comparator (some .asc) (qsort.sort comparator seq.items) := qsort.sorted _ _
        refine ⟨_, _, ?_, qsort.perm _ _, hsorted, fun h => absurd h nofun, hdone hnext hsorted (.inr ⟨_, _, _, hstorage⟩)⟩
        show (lstQsort qsort this comparator list >>= _) = _
        rw [hsort]
        rfl
      | desc =>
        obtain ⟨next, hsort, hnext, hstorage⟩ := hstored.qsort qsort comparator.desc
        have hsorted : SortedBy comparator (some .desc) (qsort.sort comparator.desc seq.items) := qsort.sorted _ _
        refine ⟨_, _, ?_, qsort.perm _ _, hsorted, fun h => absurd h nofun, hdone hnext hsorted (.inr ⟨_, _, _, hstorage⟩)⟩
        show (lstQsort qsort this comparator.desc list >>= _) = _
        rw [hsort]
        rfl

/-- **A list can be cleared** if it starts where its block does, and only
then. -/
theorem ListInv.clear (h : ListInv this seq) (hstart : lstDrift this = 0) :
    ∃ next, lstClear this = .ok next ∧ ListInv next { seq with items := [] } := by
  unfold lstClear
  rcases h.storage with hnone | ⟨list, before, after, hstored⟩
  · rw [hnone.start]
    have hseq : { seq with items := [] } = seq := by rw [← hnone.items]
    exact ⟨this, rfl, hseq ▸ h⟩
  · have hoffset : list.offset = 0 := by
      unfold lstDrift at hstart
      rw [hstored.start, hstored.alloc] at hstart
      exact hstart
    have howned : this.heap.owned list = .ok (before ++ seq.items.map some ++ after) := by
      unfold Blocks.Heap.owned
      rw [hstored.cells.block]
      exact if_pos hoffset
    rw [hstored.start]
    refine ⟨{ this with heap := this.heap.set list.block none, list := none, listSize := 0, listSizeMax := 0 }, ?_,
      h.comparator, fun comparator _ => SortedBy.nil comparator _, .inl ⟨rfl, rfl, rfl, rfl⟩⟩
    show (memory (this.heap.free list) >>= _) = _
    unfold Blocks.Heap.free
    rw [howned]
    rfl

/-! ## What the list cannot do -/

/-- The list has drifted from the start of its block, and this is not the
address of the block. -/
theorem ListInv.not_clear (h : ListInv this seq) (hdrift : lstDrift this ≠ 0) :
    lstClear this = .error (.fault .notAllocated) := by
  unfold lstDrift at hdrift
  rcases h.storage with hnone | ⟨list, before, after, hstored⟩
  · rw [hnone.start] at hdrift
    exact absurd rfl hdrift
  · rw [hstored.start, hstored.alloc] at hdrift
    unfold lstClear
    rw [hstored.start]
    show (memory (this.heap.owned list >>= _) >>= _) = _
    rw [Blocks.Heap.owned_of_offset hdrift]
    rfl

/-- **A full block of 2^31 items** is given the size zero, and what is written
then is outside of it. -/
theorem ListInv.not_insert (h : ListInv this seq) (hsize : LIST_SIZE_MAX ≤ this.listSize)
    (hidx : listIdx ≤ this.listSize) (item : α) :
    lstInsert this listIdx item = .error (.fault .outOfBlock) := by
  have hle : LIST_SIZE_MAX = 2147483648 := rfl
  rcases h.storage with hnone | ⟨list, before, after, hstored⟩
  · have hzero := hnone.size
    omega
  · have hmaxle := hstored.max_le
    have hmax := hstored.max
    have hlength := hstored.size
    obtain rfl : before = [] := length_eq_zero_iff.mp (by omega)
    obtain rfl : after = [] := length_eq_zero_iff.mp (by omega)
    have hdouble : this.listSizeMax * 2 % 2 ^ 32 = 0 := by
      rw [show this.listSizeMax = 2147483648 by omega]
      rfl
    obtain ⟨heap, q, hresize, hq, hcells⟩ := hstored.cells.resize 0 none
    rw [take_zero, Nat.zero_sub] at hcells
    have hgrow : lstInsertGrow this
        = .ok { this with heap := heap, list := some q, listSizeMax := 0, listAlloc := some q } := by
      unfold lstInsertGrow
      rw [if_pos (by omega), if_neg (by omega), hstored.start, hdouble]
      show (memory (this.heap.resize list 0 none) >>= _) = _
      rw [hresize]
      rfl
    have hassert : assertThat (listIdx ≤ this.listSize) = .ok () := if_pos hidx
    unfold lstInsert
    rw [hassert, ok_bind, hgrow, ok_bind]
    show (lstInsertMove _ q listIdx >>= _) = _
    unfold lstInsertMove
    by_cases hend : listIdx ≠ this.listSize
    · have hout : heap.inside (q.add listIdx) (this.listSize - listIdx) = .error .outOfBlock := by
        refine @At.outOfBlock _ _ _ _ _ _ hcells (q.add listIdx) rfl _ ?_
        show 0 < q.offset + listIdx + (this.listSize - listIdx)
        omega
      rw [if_pos hend]
      show (memory ((heap.inside (q.add listIdx) (this.listSize - listIdx) >>= _) >>= _) >>= _) = _
      rw [hout]
      rfl
    · have hout : heap.inside (q.add listIdx) 1 = .error .outOfBlock :=
        @At.outOfBlock _ _ _ _ _ _ hcells (q.add listIdx) rfl _ (Nat.succ_pos _)
      rw [if_neg hend, ok_bind]
      show (memory (heap.inside (q.add listIdx) 1 >>= _) >>= _) = _
      rw [hout]
      rfl

/-! ## Runs -/

/-- **The condition on a step**: an item is not added to a list of 2^31 items, a
list that is cleared starts where its block does, and there is a comparator
where one is used. -/
def ListStepMeets (this : ListObject α) : ListOp α → Prop
  | .add _ => this.listSize < LIST_SIZE_MAX
  | .insert _ _ => this.listSize < LIST_SIZE_MAX
  | .clear => lstDrift this = 0
  | .find _ => this.comparator ≠ none
  | .remove _ => this.comparator ≠ none
  | .sort _ => this.comparator ≠ none
  | .removeIdx _ => True
  | .comparatorSet _ => True

variable {seq : ListSeq α} {op : ListOp α}

section

variable (h : ListInv this seq) (qsort : Qsort α) (hidx : OpInRange seq.items.length op)
include h qsort hidx

/-- **A step that meets the condition** does what it should with the sequence,
and keeps the picture. -/
theorem ListInv.step (hmeets : ListStepMeets this op) :
    ∃ result next seq', lstStep qsort this op = .ok (result, next) ∧ SeqStep seq result seq' op ∧ ListInv next seq' := by
  have hsize := h.size
  have hcomparator (hne : this.comparator ≠ none) : ∃ comparator, seq.comparator = some comparator :=
    Option.ne_none_iff_exists'.mp (h.comparator ▸ hne)
  cases op with
  | add item =>
    obtain ⟨next, hinsert, hnext⟩ := h.insert (hsize ▸ hmeets) le_rfl item
    rw [insertIdx_length_self] at hnext
    refine ⟨.done, next, _, ?_, ⟨rfl, rfl⟩, hnext⟩
    show (lstInsert this this.listSize item >>= _) = _
    rw [hsize, hinsert]
    rfl
  | insert listIdx item =>
    obtain ⟨next, hinsert, hnext⟩ := h.insert (hsize ▸ hmeets) hidx item
    refine ⟨.done, next, _, ?_, ⟨rfl, rfl⟩, hnext⟩
    show (lstInsert this listIdx item >>= _) = _
    rw [hinsert]
    rfl
  | removeIdx listIdx =>
    obtain ⟨next, hremove, hnext⟩ := h.removeIdx hidx
    refine ⟨.done, next, _, ?_, ⟨rfl, rfl⟩, hnext⟩
    show (lstRemoveIdx this listIdx >>= _) = _
    rw [hremove]
    rfl
  | remove item =>
    obtain ⟨comparator, hsome⟩ := hcomparator hmeets
    obtain ⟨found, next, hremove, hfound, hnext⟩ := h.remove hsome item
    refine ⟨.removed found.isSome, next, _, ?_, ⟨comparator, found, hsome, hfound, rfl, rfl⟩, hnext⟩
    show (lstRemove this item >>= _) = _
    rw [hremove]
    rfl
  | sort sortOrder =>
    obtain ⟨comparator, hsome⟩ := hcomparator hmeets
    obtain ⟨next, items, hsort, hperm, hsorted, hnone, hnext⟩ := h.sort hsome qsort sortOrder
    refine ⟨.done, next, { seq with items := items }, ?_, ⟨comparator, hsome, rfl, rfl, hperm, hsorted, hnone⟩, hnext⟩
    show (lstSort qsort this sortOrder >>= _) = _
    rw [hsort]
    rfl
  | comparatorSet comparator =>
    refine ⟨.done, _, _, rfl, ⟨rfl, rfl⟩, rfl, fun _ _ => trivial, ?_⟩
    rcases h.storage with ⟨hstart, hmax, hsize, hnil⟩ | ⟨list, before, after, hs⟩
    · exact .inl ⟨hstart, hmax, hsize, hnil⟩
    · exact .inr ⟨list, before, after, hs.start, hs.alloc, hs.cells, hs.max, hs.size, hs.power⟩
  | find item =>
    obtain ⟨comparator, hsome⟩ := hcomparator hmeets
    obtain ⟨found, hfind, hfound⟩ := h.findIdx hsome item
    refine ⟨.found found, this, seq, ?_, ⟨comparator, found, hsome, hfound, rfl, rfl⟩, h⟩
    show (lstFindIdx this item >>= _) = _
    rw [hfind]
    rfl
  | clear =>
    obtain ⟨next, hclear, hnext⟩ := h.clear hmeets
    refine ⟨.done, next, _, ?_, ⟨rfl, rfl⟩, hnext⟩
    show (lstClear this >>= _) = _
    rw [hclear]
    rfl

theorem ListInv.not_step (hmeets : ¬ListStepMeets this op) :
    ∃ stop, lstStep qsort this op = .error stop := by
  have hsize := h.size
  have hassert {item : α} (hnone : this.comparator = none) : lstFind this item = .error .assertion := by
    unfold lstFind
    rw [hnone]
  cases op with
  | add item =>
    refine ⟨.fault .outOfBlock, ?_⟩
    show (lstInsert this this.listSize item >>= _) = _
    rw [h.not_insert (not_lt.mp hmeets) le_rfl]
    rfl
  | insert listIdx item =>
    refine ⟨.fault .outOfBlock, ?_⟩
    show (lstInsert this listIdx item >>= _) = _
    rw [h.not_insert (not_lt.mp hmeets) (hsize ▸ hidx)]
    rfl
  | removeIdx | comparatorSet => exact absurd trivial hmeets
  | clear =>
    refine ⟨.fault .notAllocated, ?_⟩
    show (lstClear this >>= _) = _
    rw [h.not_clear hmeets]
    rfl
  | remove item =>
    refine ⟨.assertion, ?_⟩
    show (((lstFind this item >>= _) >>= _) >>= _) = _
    rw [hassert (not_not.mp hmeets)]
    rfl
  | find item =>
    refine ⟨.assertion, ?_⟩
    show ((lstFind this item >>= _) >>= _) = _
    rw [hassert (not_not.mp hmeets)]
    rfl
  | sort sortOrder =>
    refine ⟨.assertion, ?_⟩
    have hsort : lstSort qsort this sortOrder = .error .assertion := by
      unfold lstSort
      rw [not_not.mp hmeets]
    show (lstSort qsort this sortOrder >>= _) = _
    rw [hsort]
    rfl

end

/-- **The list does what the sequence does**, step by step: no step stops, its
result is one that the sequence allows, and then the list shows the items of
the sequence. Indexes are in range. -/
def RunRefines (qsort : Qsort α) : List (ListOp α) → ListObject α → ListSeq α → Prop
  | [], _, _ => True
  | op :: ops, this, seq => OpInRange seq.items.length op →
    ∃ result next seq', lstStep qsort this op = .ok (result, next) ∧ SeqStep seq result seq' op ∧
      ListShows next seq' ∧ RunRefines qsort ops next seq'

/-- Every step of a run meets the condition, as long as indexes are in
range. -/
def RunMeets (qsort : Qsort α) : List (ListOp α) → ListObject α → Prop
  | [], _ => True
  | op :: ops, this => OpInRange this.listSize op →
    ListStepMeets this op ∧ ∀ result next, lstStep qsort this op = .ok (result, next) → RunMeets qsort ops next

theorem ListShows.unique {seq' : ListSeq α} (h : ListShows this seq) (h' : ListShows this seq') : seq = seq' := by
  have hitems : seq.items = seq'.items := by
    have hlength : seq.items.length = seq'.items.length := h.size.symm.trans h'.size
    refine ext_getElem hlength fun i hi hi' => ?_
    obtain ⟨p, hp, hread⟩ := h.get i _ (getElem?_eq_getElem hi)
    obtain ⟨p', hp', hread'⟩ := h'.get i _ (getElem?_eq_getElem hi')
    cases hp.symm.trans hp'
    exact Except.ok.inj (hread.symm.trans hread')
  have hcomparator := h.comparator.symm.trans h'.comparator
  cases seq
  cases seq'
  dsimp only at hitems hcomparator
  rw [hitems, hcomparator]

theorem runRefines_iff (qsort : Qsort α) (ops : List (ListOp α)) (h : ListInv this seq) :
    RunRefines qsort ops this seq ↔ RunMeets qsort ops this := by
  induction ops generalizing this seq with
  | nil => exact Iff.rfl
  | cons op ops ih =>
    constructor
    · intro hrun hidx
      rw [h.size] at hidx
      obtain ⟨result, next, seq', hstep, -, hshows, hrest⟩ := hrun hidx
      have hmeets : ListStepMeets this op := by
        by_contra hnot
        obtain ⟨stop, hstop⟩ := h.not_step qsort hidx hnot
        cases hstep.symm.trans hstop
      refine ⟨hmeets, fun result' next' hstep' => ?_⟩
      cases hstep.symm.trans hstep'
      obtain ⟨result', next', seq'', hstep', -, hinv⟩ := h.step qsort hidx hmeets
      cases hstep.symm.trans hstep'
      obtain rfl := hinv.shows.unique hshows
      exact (ih hinv).mp hrest
    · intro hmeets hidx
      obtain ⟨hstep, hrest⟩ := hmeets (h.size ▸ hidx)
      obtain ⟨result, next, seq', hdone, hseq, hinv⟩ := h.step qsort hidx hstep
      exact ⟨result, next, seq', hdone, hseq, hinv.shows, (ih hinv).mpr (hrest result next hdone)⟩

/-- **A new list refines the empty sequence** in a run if and only if all its
steps meet the condition. -/
theorem lstNew_refines (qsort : Qsort α) (heap : Blocks.Heap (Option α)) (sortOrder : Option SortOrder)
    (comparator : Option (ListComparator α)) (ops : List (ListOp α)) :
    RunRefines qsort ops (lstNew heap sortOrder comparator) ⟨[], comparator⟩ ↔
      RunMeets qsort ops (lstNew heap sortOrder comparator) :=
  runRefines_iff qsort ops ⟨rfl, fun c _ => SortedBy.nil c sortOrder, .inl ⟨rfl, rfl, rfl, rfl⟩⟩

/-- An insertion sort is one of the sorts that `qsort` can be. -/
def insertionQsort (α : Type) : Qsort α where
  sort comparator items := items.insertionSort (fun a b => comparator.compare a b ≤ 0)
  perm comparator items := perm_insertionSort _ items
  sorted comparator items := by
    have htotal : Std.Total (fun a b => comparator.compare a b ≤ 0) := by
      refine ⟨fun a b => ?_⟩
      have hab := comparator.lt_iff a b
      omega
    have htrans : IsTrans α (fun a b => comparator.compare a b ≤ 0) := ⟨comparator.trans⟩
    exact pairwise_insertionSort _ items

/-- **A list cannot be cleared after its first item was removed**: what is given
back is the address of the second. -/
theorem not_refines_clear :
    ¬RunRefines (insertionQsort ℕ) [.add 1, .add 2, .removeIdx 0, .clear] (lstNew ⟨0, fun _ => none⟩ none none)
      ⟨[], none⟩ := by
  intro hrun
  obtain ⟨_, one, _, hone, ⟨-, rfl⟩, -, hrun⟩ := hrun trivial
  obtain ⟨_, two, _, htwo, ⟨-, rfl⟩, -, hrun⟩ := hrun trivial
  obtain ⟨_, removed, _, hremoved, ⟨-, rfl⟩, -, hrun⟩ := hrun (by decide : 0 < 2)
  obtain ⟨_, cleared, _, hcleared, -⟩ := hrun trivial
  cases hone
  cases htwo
  cases hremoved
  cases hcleared

end PgxBackup
