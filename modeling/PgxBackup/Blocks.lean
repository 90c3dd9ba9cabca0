import Mathlib.Data.List.Basic
import Mathlib.Logic.Function.Basic

/-!
# Memory in blocks

A block of memory is a list of cells, and a pointer is a block with a position
in it. A block that is resized moves, and nothing is left where it was. Every
access names its cells, and stops when a block is not there or has no such
cells.
-/

namespace Blocks

open List

variable {α : Type}

/-- A position in a block. -/
structure Ptr where
  block : ℕ
  offset : ℕ
  deriving DecidableEq

/-- The position some cells further on. -/
def Ptr.add (p : Ptr) (n : ℕ) : Ptr := { p with offset := p.offset + n }

/-- How an access fails. -/
inductive Fault
  /-- What is given back is not the address of a block. -/
  | notAllocated
  /-- The cells are not all in a block. -/
  | outOfBlock
  deriving DecidableEq

/-- The blocks, and the number of the next one. -/
structure Heap (α : Type) where
  next : ℕ
  block : ℕ → Option (List α)

namespace Heap

/-- Give a block these cells. -/
def set (heap : Heap α) (b : ℕ) (cells : Option (List α)) : Heap α :=
  { heap with block := Function.update heap.block b cells }

/-- Allocate a block. -/
def new (heap : Heap α) (cells : List α) : Heap α × Ptr :=
  ({ heap.set heap.next (some cells) with next := heap.next + 1 }, ⟨heap.next, 0⟩)

/-- The cells of the block that starts here. -/
def owned (heap : Heap α) (p : Ptr) : Except Fault (List α) :=
  match heap.block p.block with
  | some cells => if p.offset = 0 then .ok cells else .error .notAllocated
  | none => .error .notAllocated

/-- Free the block that starts here. -/
def free (heap : Heap α) (p : Ptr) : Except Fault (Heap α) := do
  let _ ← heap.owned p
  .ok (heap.set p.block none)

/-- Give the block that starts here another size: it moves, and the cells that
are added have this value. -/
def resize (heap : Heap α) (p : Ptr) (size : ℕ) (fill : α) : Except Fault (Heap α × Ptr) := do
  let cells ← heap.owned p
  .ok ((heap.set p.block none).new (cells.take size ++ replicate (size - cells.length) fill))

/-- The cells of a block, if these are in it. -/
def inside (heap : Heap α) (p : Ptr) (n : ℕ) : Except Fault (List α) :=
  match heap.block p.block with
  | some cells => if p.offset + n ≤ cells.length then .ok cells else .error .outOfBlock
  | none => .error .outOfBlock

/-- Read cells. -/
def load (heap : Heap α) (p : Ptr) (n : ℕ) : Except Fault (List α) := do
  let cells ← heap.inside p n
  .ok ((cells.drop p.offset).take n)

/-- Write cells. -/
def store (heap : Heap α) (p : Ptr) (values : List α) : Except Fault (Heap α) := do
  let cells ← heap.inside p values.length
  .ok (heap.set p.block (some (cells.take p.offset ++ values ++ cells.drop (p.offset + values.length))))

/-- Move cells; the two places may overlap. -/
def move (heap : Heap α) (dest source : Ptr) (n : ℕ) : Except Fault (Heap α) := do
  heap.store dest (← heap.load source n)

end Heap

variable {heap : Heap α} {p : Ptr}

@[simp] theorem Heap.block_set (b : ℕ) (cells : Option (List α)) : (heap.set b cells).block b = cells :=
  Function.update_self _ _ _

/-! ## A block of three parts -/

/-- The block that the pointer points into consists of the cells before it,
these cells, and the cells after them. -/
structure At (heap : Heap α) (p : Ptr) (before cells after : List α) : Prop where
  block : heap.block p.block = some (before ++ cells ++ after)
  offset : before.length = p.offset

variable {before cells after : List α}

theorem At.load (h : At heap p before cells after) :
    heap.load p cells.length = .ok cells := by
  have hroom : p.offset + cells.length ≤ (before ++ cells ++ after).length := by
    rw [length_append, length_append, h.offset]
    exact Nat.le_add_right _ _
  unfold Heap.load Heap.inside
  rw [h.block]
  dsimp only
  rw [if_pos hroom]
  show Except.ok _ = _
  rw [← h.offset, append_assoc, drop_left, take_left]

/-- **What is written replaces as many cells.** -/
theorem At.store {values : List α} (h : At heap p before cells after)
    (hlength : values.length = cells.length) :
    ∃ next, heap.store p values = .ok next ∧ At next p before values after := by
  have hroom : p.offset + values.length ≤ (before ++ cells ++ after).length := by
    rw [length_append, length_append, h.offset, hlength]
    exact Nat.le_add_right _ _
  refine ⟨heap.set p.block (some (before ++ values ++ after)), ?_, ⟨Heap.block_set _ _, h.offset⟩⟩
  unfold Heap.store Heap.inside
  rw [h.block]
  dsimp only
  rw [if_pos hroom]
  show Except.ok _ = _
  rw [← h.offset, hlength, ← length_append, drop_left, append_assoc before cells, take_left]

theorem At.shift {before' cells' after' : List α} (h : At heap p before cells after) (q : Ptr)
    (hblock : q.block = p.block) (hoffset : before'.length = q.offset)
    (hcells : before' ++ cells' ++ after' = before ++ cells ++ after) : At heap q before' cells' after' :=
  ⟨by rw [hblock, h.block, hcells], hoffset⟩

/-- Only the address of a block can be given back. -/
theorem Heap.owned_of_offset (h : p.offset ≠ 0) : heap.owned p = .error .notAllocated := by
  unfold Heap.owned
  split
  · exact if_neg h
  · rfl

theorem at_new (heap : Heap α) (cells : List α) : At (heap.new cells).1 (heap.new cells).2 [] cells [] := by
  refine ⟨?_, rfl⟩
  show Function.update _ heap.next _ heap.next = _
  rw [Function.update_self, nil_append, append_nil]

/-- **A block of another size** keeps the cells that fit. -/
theorem At.resize (h : At heap p [] cells []) (size : ℕ) (fill : α) :
    ∃ next q, heap.resize p size fill = .ok (next, q) ∧ q.offset = 0 ∧
      At next q [] (cells.take size) (replicate (size - cells.length) fill) := by
  have hcells : heap.block p.block = some cells := by
    rw [h.block, nil_append, append_nil]
  have hresize : heap.resize p size fill
      = .ok ((heap.set p.block none).new (cells.take size ++ replicate (size - cells.length) fill)) := by
    unfold Heap.resize Heap.owned
    rw [hcells]
    dsimp only
    rw [if_pos (show p.offset = 0 from h.offset.symm)]
    rfl
  exact ⟨_, _, hresize, rfl, (at_new _ _).shift _ rfl rfl (by rw [append_nil]; rfl)⟩

theorem At.outOfBlock (h : At heap p before cells after) {q : Ptr}
    (hblock : q.block = p.block) {n : ℕ} (hn : (before ++ cells ++ after).length < q.offset + n) :
    heap.inside q n = .error .outOfBlock := by
  unfold Heap.inside
  rw [hblock, h.block]
  exact if_neg (Nat.not_le.mpr hn)

end Blocks
