/-!
Binary min-heaps in arrays.

The children of position `i` are `2i+1` and `2i+2`. An element moves up while it is strictly
below its parent and down while a child is strictly below it (the right child only if strictly
below the left one). With a strict order these keep every parent at or below its children; with
a comparison that is no order (as `<` on doubles with a NaN) they still run, and the order the
elements leave in is the one these exact moves give.
-/

namespace CoSimBridge.Delivery.Heap

variable {α : Type}

/-- The parent position of a position other than the root. -/
def parent (j : Nat) : Nat := (j - 1) / 2

/-- Moves the element at `j` up while it is below its parent. -/
def siftUp (lt : α → α → Bool) (a : Array α) (j : Nat) : Array α :=
  if _ : j = 0 then a
  else
    match a[j]?, a[parent j]? with
    | some x, some p => if lt x p then siftUp lt (a.swapIfInBounds (parent j) j) (parent j) else a
    | _, _ => a
termination_by j
decreasing_by simp only [parent]; omega

/-- The child to compare with: the right one `l + 1` when `right`, else the left one `l`. -/
def child (l : Nat) (right : Bool) : Nat := if right then l + 1 else l

theorem le_child (l : Nat) (right : Bool) : l ≤ child l right := by
  cases right <;> simp [child]

/-- Moves the element at `i` down, among the first `n` positions, while a child is below it. -/
def siftDown (lt : α → α → Bool) (a : Array α) (n i : Nat) : Array α :=
  let l := 2 * i + 1
  if _ : l < n then
    let right := match a[l + 1]?, a[l]? with
      | some r, some x => decide (l + 1 < n) && lt r x
      | _, _ => false
    let c := child l right
    match a[c]?, a[i]? with
    | some y, some x => if lt y x then siftDown lt (a.swapIfInBounds i c) n c else a
    | _, _ => a
  else a
termination_by n - i
decreasing_by exact Nat.sub_lt_sub_left (by omega) (Nat.lt_of_lt_of_le (by omega) (le_child _ _))

/-- Adds an element. -/
def push (lt : α → α → Bool) (a : Array α) (x : α) : Array α :=
  siftUp lt (a.push x) a.size

/-- The root, and the heap without it: the last element takes the root's place and moves
down. -/
def pop? (lt : α → α → Bool) (a : Array α) : Option (α × Array α) :=
  if a.size = 0 then none
  else
    let n := a.size - 1
    let b := siftDown lt (a.swapIfInBounds 0 n) n 0
    b.back?.map fun x => (x, b.pop)

end CoSimBridge.Delivery.Heap
