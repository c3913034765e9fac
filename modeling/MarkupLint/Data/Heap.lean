/-! # Heaps

    A heap is an array that is read as a binary tree: below place `i` are the
    places `2 * i + 1` and `2 * i + 2`.  What comes first is kept at place 0:
    a new item goes to the end and rises past the items above it that it
    comes before; when the first is taken, the last moves to its place and
    sinks past the items below it that come before it. -/

namespace MarkupLint.Data

/-- Items kept so that the first of them is found at once. -/
structure Heap (α : Type) where
  items : Array α := #[]

namespace Heap

variable {α : Type}

/-- The number of items. -/
def size (h : Heap α) : Nat := h.items.size

/-- The place above a place. -/
def parent (i : Nat) : Nat := (i - 1) / 2

theorem parent_lt {i : Nat} (h : 0 < i) : parent i < i := by
  unfold parent
  omega

/-- The place below `i` whose item comes first; the first of the two if there
    is no second. -/
def child (before : α → α → Bool) (a : Array α) (i : Nat) (h : 2 * i + 1 < a.size) : Nat :=
  if h' : 2 * i + 2 < a.size then
    if before a[2 * i + 2] a[2 * i + 1] then 2 * i + 2 else 2 * i + 1
  else 2 * i + 1

/-- The child is the left one or the right one. -/
theorem child_cases (before : α → α → Bool) (a : Array α) (i : Nat) (h : 2 * i + 1 < a.size) :
    child before a i h = 2 * i + 1 ∨ child before a i h = 2 * i + 2 ∧ 2 * i + 2 < a.size := by
  unfold child
  split
  · split
    · exact Or.inr ⟨rfl, ‹_›⟩
    · exact Or.inl rfl
  · exact Or.inl rfl

/-- It is in the heap. -/
theorem child_lt_size (before : α → α → Bool) (a : Array α) (i : Nat) (h : 2 * i + 1 < a.size) :
    child before a i h < a.size := by
  have := child_cases before a i h
  omega

/-- And behind its parent. -/
theorem lt_child (before : α → α → Bool) (a : Array α) (i : Nat) (h : 2 * i + 1 < a.size) :
    i < child before a i h := by
  have := child_cases before a i h
  omega

/-- Lets the item at place `j` rise past the items that it comes before. -/
def siftUp (before : α → α → Bool) (a : Array α) (j : Nat) (h : j < a.size) : Array α :=
  if h0 : 0 < j then
    have hp : parent j < a.size := Nat.lt_trans (parent_lt h0) h
    if before a[j] a[parent j] then
      siftUp before (a.swap (parent j) j) (parent j) (by rw [Array.size_swap]; exact hp)
    else a
  else a
termination_by j
decreasing_by exact parent_lt h0

/-- Lets the item at place `i` sink past the items that come before it. -/
def siftDown (before : α → α → Bool) (a : Array α) (i : Nat) : Array α :=
  if h : 2 * i + 1 < a.size then
    let j := child before a i h
    have hj : j < a.size := child_lt_size before a i h
    have hi : i < j := lt_child before a i h
    if before a[j] a[i] then siftDown before (a.swap i j) j else a
  else a
termination_by a.size - i
decreasing_by
  rw [Array.size_swap]
  omega

/-- Puts an item in. -/
def push (before : α → α → Bool) (h : Heap α) (x : α) : Heap α where
  items := siftUp before (h.items.push x) h.items.size (by rw [Array.size_push]; omega)

/-- Takes the first item out. -/
def pop? (before : α → α → Bool) (h : Heap α) : Option (α × Heap α) :=
  if h0 : 0 < h.items.size then
    some (h.items[0], { items := siftDown before (h.items.swap 0 (h.items.size - 1)).pop 0 })
  else none

end Heap

end MarkupLint.Data
