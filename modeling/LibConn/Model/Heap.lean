import LibConn.Shared.Run
import Mathlib.Algebra.Group.Nat.Defs
import Mathlib.Data.List.Basic

/-! # The binary heap of `heap.h`

`array` holds `heap->array[0 .. size)`. `compare` is the field of that name; it reads the
nodes, so it is passed along with the heap. Both loops run on fuel; `Verification.Heap`
shows that the fuel given to them is enough.

The positions are `int`s. With natural numbers in their place the functions are total; those
whose names end in `Int` have no result where a position overflows. On a heap of at most 2 ^ 30
nodes, such as that of an event loop, the two are the same (`heapPopInt_eq`, `heapRemoveInt_eq`). -/

namespace LibConn

variable {α : Type*}

/-- `heap_st` without its `compare`. -/
structure Heap (α : Type*) where
  array : List α
  capacity : ℕ
  deriving DecidableEq, Repr

def Heap.size (heap : Heap α) : ℕ :=
  heap.array.length

/-- `create_heap` -/
def createHeap (capacity : ℕ) : Heap α where
  array := []
  capacity := capacity

/-- Exchange two entries; the callers only pass positions below `size`. -/
def Heap.swap (array : List α) (i j : ℕ) : List α :=
  match array[i]?, array[j]? with
  | some x, some y => (array.set i y).set j x
  | _, _ => array

/-- `compare(array[i], array[j])` -/
def Heap.below (compare : α → α → Bool) (array : List α) (i j : ℕ) : Bool :=
  match array[i]?, array[j]? with
  | some x, some y => compare x y
  | _, _ => false

/-- `heapify_up` -/
def heapifyUp (compare : α → α → Bool) : ℕ → List α → ℕ → List α
  | 0, array, _ => array
  | fuel + 1, array, index =>
    if index ≠ 0 ∧ Heap.below compare array index ((index - 1) / 2) then
      heapifyUp compare fuel (Heap.swap array index ((index - 1) / 2)) ((index - 1) / 2)
    else array

/-- `heap_insert` -/
def heapInsert (compare : α → α → Bool) (heap : Heap α) (node : α) : Heap α :=
  if heap.size = heap.capacity then heap
  else
    { heap with array := heapifyUp compare heap.size (heap.array ++ [node]) heap.size }

/-- The position that `heapify_down` exchanges `index` with, or `index` itself, as long as `left` and
`right` are within `int`. -/
def heapifyChild (compare : α → α → Bool) (array : List α) (index : ℕ) : ℕ :=
  let left := 2 * index + 1
  let right := 2 * index + 2
  let parent_index :=
    if left < array.length ∧ Heap.below compare array left index then left else index
  if right < array.length ∧ Heap.below compare array right parent_index then right else parent_index

/-- `heapify_down` below the position where `left` and `right` overflow. -/
def heapifyDown (compare : α → α → Bool) : ℕ → List α → ℕ → List α
  | 0, array, _ => array
  | fuel + 1, array, index =>
    let parent_index := heapifyChild compare array index
    if parent_index ≠ index then
      heapifyDown compare fuel (Heap.swap array index parent_index) parent_index
    else array

/-- `heap_top` -/
def heapTop (heap : Heap α) : Option α :=
  heap.array.head?

/-- `array[index] = array[size - 1]; size--` -/
def moveLast (array : List α) (index : ℕ) : List α :=
  match array.getLast? with
  | some last => (array.set index last).dropLast
  | none => array

/-- `heap_pop` -/
def heapPop (compare : α → α → Bool) (heap : Heap α) : Heap α :=
  if heap.size = 0 then heap
  else
    let array := moveLast heap.array 0
    { heap with array := heapifyDown compare array.length array 0 }

/-- `heap_remove` -/
def heapRemove [DecidableEq α] (compare : α → α → Bool) (heap : Heap α) (node : α) : Heap α :=
  match heap.array.idxOf? node with
  | none => heap
  | some index =>
    if index = heap.size - 1 then { heap with array := heap.array.dropLast }
    else
      let array := moveLast heap.array index
      let array := heapifyDown compare array.length array index
      { heap with array := heapifyUp compare index array index }

/-! ## Positions that overflow -/

/-- `INT_MAX` -/
def intMax : ℕ := 2 ^ 31 - 1

/-- `heapify_down` with `left` and `right` as `int`. -/
def heapifyDownInt (compare : α → α → Bool) : ℕ → List α → ℕ → Option (List α)
  | 0, array, _ => some array
  | fuel + 1, array, index =>
    if intMax < 2 * index + 2 then none
    else
      let parent_index := heapifyChild compare array index
      if parent_index ≠ index then
        heapifyDownInt compare fuel (Heap.swap array index parent_index) parent_index
      else some array

/-- `heap_insert` with `size` as `int`. -/
def heapInsertInt (compare : α → α → Bool) (heap : Heap α) (node : α) : Option (Heap α) :=
  if heap.size = heap.capacity then some heap
  else if heap.size = intMax then none
  else some (heapInsert compare heap node)

/-- `heap_pop` with its positions as `int`. -/
def heapPopInt (compare : α → α → Bool) (heap : Heap α) : Option (Heap α) :=
  if heap.size = 0 then some heap
  else
    let array := moveLast heap.array 0
    (heapifyDownInt compare array.length array 0).map fun array => { heap with array := array }

/-- `heap_remove` with its positions as `int`. -/
def heapRemoveInt [DecidableEq α] (compare : α → α → Bool) (heap : Heap α) (node : α) :
    Option (Heap α) :=
  match heap.array.idxOf? node with
  | none => some heap
  | some index =>
    if index = heap.size - 1 then some { heap with array := heap.array.dropLast }
    else
      let array := moveLast heap.array index
      (heapifyDownInt compare array.length array index).map fun array =>
        { heap with array := heapifyUp compare index array index }

/-! ## Users of a heap -/

/-- The calls that a user makes on a heap. -/
inductive HeapCall (α : Type*) where
  | insert (node : α)
  | pop
  | remove (node : α)
  | top
  deriving DecidableEq, Repr

def Heap.call [DecidableEq α] (compare : α → α → Bool) (heap : Heap α) :
    HeapCall α → Option (Heap α)
  | .insert node => heapInsertInt compare heap node
  | .pop => heapPopInt compare heap
  | .remove node => heapRemoveInt compare heap node
  | .top => some heap

/-- The heap after the given calls on a new one. -/
def heapRun [DecidableEq α] (compare : α → α → Bool) (capacity : ℕ) (calls : List (HeapCall α)) :
    Option (Heap α) :=
  Run.exec (Heap.call compare) (createHeap capacity) calls

/-- At most `fuel` rounds of `heap_top` and `heap_pop`, as `test_heap.c` makes them: the
nodes in the order in which they come out. -/
def drain (compare : α → α → Bool) : ℕ → Heap α → Option (List α)
  | 0, _ => some []
  | fuel + 1, heap =>
    match heapTop heap with
    | none => some []
    | some node => do
      let heap ← heapPopInt compare heap
      let nodes ← drain compare fuel heap
      return node :: nodes

end LibConn
