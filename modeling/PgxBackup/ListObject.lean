import PgxBackup.BinarySearch
import PgxBackup.Blocks
import PgxBackup.Text

/-!
# Lists of items

A list keeps its items in one block of memory that doubles when it is full
(`common/type/list.c`). Removing the first item does not move the others, the
list just starts one item later; the items are moved back to the start of the
block when there is no room behind them. The order that the list was last
sorted in is kept until an item is inserted, and an item is searched for by
halving as long as there is one.

Memory is counted in items. The places that are read and written are part of
the model, and so is the address that is given back to the allocator.
-/

namespace PgxBackup

/-- A `ListComparator`: negative, zero or positive as the first item is before,
equal to or after the second. -/
structure ListComparator (α : Type) where
  compare : α → α → ℤ
  lt_iff : ∀ a b, compare a b < 0 ↔ 0 < compare b a
  trans : ∀ a b c, compare a b ≤ 0 → compare b c ≤ 0 → compare a c ≤ 0

/-- `lstComparatorDesc`, for the list it was parked for. -/
def ListComparator.desc {α : Type} (comparator : ListComparator α) : ListComparator α where
  compare item1 item2 := comparator.compare item2 item1
  lt_iff a b := comparator.lt_iff b a
  trans a b c hab hbc := comparator.trans c b a hbc hab

/-- `qsort`. The order of items that compare equal is not specified. -/
structure Qsort (α : Type) where
  sort : ListComparator α → List α → List α
  perm : ∀ comparator items, (sort comparator items).Perm items
  sorted : ∀ comparator items, (sort comparator items).Pairwise (fun a b => comparator.compare a b ≤ 0)

/-- How an operation stops. -/
inductive ListStop
  /-- Memory is used that was not allocated. -/
  | fault (fault : Blocks.Fault)
  /-- A null pointer is used. -/
  | null
  /-- An assertion fails. -/
  | assertion
  /-- An error is raised. -/
  | error (error : Error)
  deriving DecidableEq

/-- A list (`List`), with the memory it was given. A cell is none until an item
is written to it. -/
structure ListObject (α : Type) where
  heap : Blocks.Heap (Option α)
  list : Option Blocks.Ptr
  listSize : ℕ
  listSizeMax : ℕ
  /-- None is `sortOrderNone`. -/
  sortOrder : Option SortOrder
  listAlloc : Option Blocks.Ptr
  comparator : Option (ListComparator α)

def LIST_INITIAL_SIZE : ℕ := 8

variable {α : Type}

/-- What the access to memory returns. -/
def memory {β : Type} : Except Blocks.Fault β → Except ListStop β
  | .ok value => .ok value
  | .error fault => .error (.fault fault)

/-- The pointer, if it is not null. -/
def notNull : Option Blocks.Ptr → Except ListStop Blocks.Ptr
  | some p => .ok p
  | none => .error .null

/-- `ASSERT`. -/
def assertThat (condition : Prop) [Decidable condition] : Except ListStop Unit :=
  if condition then .ok () else .error .assertion

/-- The item that a pointer points to. -/
def readItem (this : ListObject α) (p : Blocks.Ptr) : Except ListStop α := do
  match ← memory (this.heap.load p 1) with
  | [some item] => .ok item
  | _ => .error (.fault .outOfBlock)

/-- Items that follow each other in memory. -/
def readItems (this : ListObject α) (p : Blocks.Ptr) (n : ℕ) : Except ListStop (List α) := do
  match (← memory (this.heap.load p n)).mapM id with
  | some items => .ok items
  | none => .error (.fault .outOfBlock)

/-- `lstNew`. -/
def lstNew (heap : Blocks.Heap (Option α)) (sortOrder : Option SortOrder) (comparator : Option (ListComparator α)) :
    ListObject α :=
  ⟨heap, none, 0, 0, sortOrder, none, comparator⟩

/-- `lstClear`. -/
def lstClear (this : ListObject α) : Except ListStop (ListObject α) :=
  match this.list with
  | none => .ok this
  | some list => do
    let heap ← memory (this.heap.free list)
    .ok { this with heap := heap, list := none, listSize := 0, listSizeMax := 0 }

/-- `lstGet`. -/
def ListObject.lstGet (this : ListObject α) (listIdx : ℕ) : Except ListStop Blocks.Ptr :=
  if this.listSize ≤ listIdx then
    .error (.error ⟨.assertError, "cannot get index ".toList ++ Nat.toDigits 10 listIdx ++ " from list with ".toList
      ++ Nat.toDigits 10 this.listSize ++ " value(s)".toList⟩)
  else do
    .ok ((← notNull this.list).add listIdx)

/-- The iterative search of `lstFind`. -/
def lstFindLoop (this : ListObject α) (comparator : ListComparator α) (item : α) :
    ℕ → ℕ → Except ListStop (Option Blocks.Ptr)
  | 0, _ => .ok none
  | left + 1, listIdx => do
    let p ← this.lstGet listIdx
    if comparator.compare item (← readItem this p) = 0 then .ok (some p)
    else lstFindLoop this comparator item left (listIdx + 1)

/-- `lstFind`. -/
def lstFind (this : ListObject α) (item : α) : Except ListStop (Option Blocks.Ptr) :=
  match this.comparator with
  | none => .error .assertion
  | some comparator =>
    match this.list with
    | none => .ok none
    | some list =>
      match this.sortOrder with
      | some .asc => do
        let items ← readItems this list this.listSize
        .ok ((BinarySearch.bsearch (comparator.compare item) items).map list.add)
      | some .desc => do
        let items ← readItems this list this.listSize
        .ok ((BinarySearch.bsearch (comparator.desc.compare item) items).map list.add)
      | none => lstFindLoop this comparator item this.listSize 0

/-- `lstIdx`. -/
def lstIdx (this : ListObject α) (item : Blocks.Ptr) : Except ListStop ℕ := do
  .ok (item.offset - (← notNull this.list).offset)

/-- `lstFindIdx`; none is `LIST_NOT_FOUND`. -/
def lstFindIdx (this : ListObject α) (item : α) : Except ListStop (Option ℕ) := do
  match ← lstFind this item with
  | none => .ok none
  | some p => do .ok (some (← lstIdx this p))

/-- How many items the list has drifted from the start of its block. -/
def lstDrift (this : ListObject α) : ℕ :=
  match this.list, this.listAlloc with
  | some list, some listAlloc => list.offset - listAlloc.offset
  | _, _ => 0

/-- Room for one more item, the first part of `lstInsert`. -/
def lstInsertGrow (this : ListObject α) : Except ListStop (ListObject α) :=
  if this.listSize = this.listSizeMax then
    -- nothing has been allocated yet
    if this.listSizeMax = 0 then
      let (heap, list) := this.heap.new (List.replicate LIST_INITIAL_SIZE none)
      .ok { this with heap := heap, list := some list, listSizeMax := LIST_INITIAL_SIZE, listAlloc := some list }
    -- the list needs to be extended
    else do
      let listSizeMax := this.listSizeMax * 2 % 2 ^ 32
      let (heap, list) ← memory (this.heap.resize (← notNull this.list) listSizeMax none)
      .ok { this with heap := heap, list := some list, listSizeMax := listSizeMax, listAlloc := some list }
  -- if there is space before the beginning of the list then move the list down
  else if this.list ≠ this.listAlloc ∧ this.listSize + lstDrift this = this.listSizeMax then do
    let heap ← memory (this.heap.move (← notNull this.listAlloc) (← notNull this.list) this.listSize)
    .ok { this with heap := heap, list := this.listAlloc }
  else .ok this

/-- Move items down to make space for one, the second part of `lstInsert`. -/
def lstInsertMove (this : ListObject α) (list : Blocks.Ptr) (listIdx : ℕ) :
    Except ListStop (Blocks.Heap (Option α)) :=
  if listIdx ≠ this.listSize then
    memory (this.heap.move (list.add ((listIdx + 1) % 2 ^ 32)) (list.add listIdx) (this.listSize - listIdx))
  else .ok this.heap

/-- `lstInsert`. -/
def lstInsert (this : ListObject α) (listIdx : ℕ) (item : α) : Except ListStop (ListObject α) := do
  assertThat (listIdx ≤ this.listSize)
  let this ← lstInsertGrow this
  let list ← notNull this.list
  let heap ← lstInsertMove this list listIdx
  -- insertion always invalidates the sort order
  let heap ← memory (heap.store (list.add listIdx) [some item])
  .ok { this with heap := heap, sortOrder := none, listSize := (this.listSize + 1) % 2 ^ 32 }

/-- `lstAdd`. -/
def lstAdd (this : ListObject α) (item : α) : Except ListStop (ListObject α) := lstInsert this this.listSize item

/-- `lstRemoveIdx`. -/
def lstRemoveIdx (this : ListObject α) (listIdx : ℕ) : Except ListStop (ListObject α) := do
  assertThat (listIdx ≤ this.listSize)
  let listSize := (this.listSize + (2 ^ 32 - 1)) % 2 ^ 32
  let list ← notNull this.list
  -- the first item is removed by starting after it
  if listIdx = 0 then
    .ok { this with list := some (list.add 1), listSize := listSize }
  else
    let heap ← memory
      (this.heap.move (list.add listIdx) (list.add ((listIdx + 1) % 2 ^ 32)) (listSize - listIdx))
    .ok { this with heap := heap, listSize := listSize }

/-- `lstRemove`: whether there was an item to remove, and the list. -/
def lstRemove (this : ListObject α) (item : α) : Except ListStop (Bool × ListObject α) := do
  match ← lstFindIdx this item with
  | some listIdx => .ok (true, ← lstRemoveIdx this listIdx)
  | none => .ok (false, this)

/-- The calls of `qsort` in `lstSort`. -/
def lstQsort (qsort : Qsort α) (this : ListObject α) (comparator : ListComparator α) (list : Blocks.Ptr) :
    Except ListStop (ListObject α) := do
  let items ← readItems this list this.listSize
  let heap ← memory (this.heap.store list ((qsort.sort comparator items).map some))
  .ok { this with heap := heap }

/-- `lstSort`. -/
def lstSort (qsort : Qsort α) (this : ListObject α) (sortOrder : Option SortOrder) :
    Except ListStop (ListObject α) :=
  match this.comparator with
  | none => .error .assertion
  | some comparator => do
    let this ←
      match this.list, sortOrder with
      | some list, some .asc => lstQsort qsort this comparator list
      | some list, some .desc => lstQsort qsort this comparator.desc list
      | _, _ => .ok this
    .ok { this with sortOrder := sortOrder }

/-- `lstComparatorSet`. -/
def lstComparatorSet (this : ListObject α) (comparator : Option (ListComparator α)) : ListObject α :=
  { this with comparator := comparator, sortOrder := none }

/-! ## Operations -/

inductive ListOp (α : Type)
  | add (item : α)
  | insert (listIdx : ℕ) (item : α)
  | removeIdx (listIdx : ℕ)
  | remove (item : α)
  | sort (sortOrder : Option SortOrder)
  | comparatorSet (comparator : Option (ListComparator α))
  | find (item : α)
  | clear

/-- What an operation returns, apart from the list: whether an item was removed,
or the index of the item found. -/
inductive ListResult
  | done
  | removed (removed : Bool)
  | found (listIdx : Option ℕ)
  deriving DecidableEq

def lstStep (qsort : Qsort α) (this : ListObject α) : ListOp α → Except ListStop (ListResult × ListObject α)
  | .add item => do .ok (.done, ← lstAdd this item)
  | .insert listIdx item => do .ok (.done, ← lstInsert this listIdx item)
  | .removeIdx listIdx => do .ok (.done, ← lstRemoveIdx this listIdx)
  | .remove item => do
    let (removed, this) ← lstRemove this item
    .ok (.removed removed, this)
  | .sort sortOrder => do .ok (.done, ← lstSort qsort this sortOrder)
  | .comparatorSet comparator => .ok (.done, lstComparatorSet this comparator)
  | .find item => do .ok (.found (← lstFindIdx this item), this)
  | .clear => do .ok (.done, ← lstClear this)

end PgxBackup
