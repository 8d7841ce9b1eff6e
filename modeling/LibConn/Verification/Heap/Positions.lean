import LibConn.Verification.Heap.Order

/-! # Positions that fit an `int`

A walk down overflows at the position 2 ^ 30 - 1, which only a heap of more than 2 ^ 30 nodes
has. -/

namespace LibConn

variable {α : Type*} {compare : α → α → Bool}

/-- Below 2 ^ 30 entries no position overflows. -/
theorem heapifyDownInt_eq (fuel : ℕ) {array : List α} {index : ℕ} (harray : array.length < 2 ^ 30)
    (hindex : index < 2 ^ 30 - 1) :
    heapifyDownInt compare fuel array index = some (heapifyDown compare fuel array index) := by
  induction fuel generalizing array index with
  | zero => rfl
  | succ fuel ih =>
      have hint : ¬ intMax < 2 * index + 2 := by
        rw [intMax]
        omega
      rw [heapifyDownInt, if_neg hint, heapifyDown]
      dsimp only
      split_ifs with hchild
      · obtain ⟨-, hlt⟩ := heapifyChild_lt hchild
        exact ih (by rwa [Heap.swap_length]) (by omega)
      · rfl

/-- A position from 2 ^ 30 - 1 on overflows. -/
theorem heapifyDownInt_overflows {fuel : ℕ} {array : List α} {index : ℕ} (hfuel : 0 < fuel)
    (hindex : 2 ^ 30 - 1 ≤ index) : heapifyDownInt compare fuel array index = none := by
  cases fuel with
  | zero => exact absurd hfuel (Nat.lt_irrefl 0)
  | succ fuel =>
      rw [heapifyDownInt, if_pos]
      rw [intMax]
      omega

section Calls

variable {heap : Heap α}

theorem heapInsertInt_eq (node : α) (hcapacity : heap.capacity ≤ intMax)
    (hsize : heap.size ≤ heap.capacity) :
    heapInsertInt compare heap node = some (heapInsert compare heap node) := by
  rw [heapInsertInt]
  by_cases hfull : heap.size = heap.capacity
  · rw [if_pos hfull, heapInsert, if_pos hfull]
  · rw [if_neg hfull, if_neg (by omega)]

theorem heapPopInt_eq (h : heap.size ≤ 2 ^ 30) :
    heapPopInt compare heap = some (heapPop compare heap) := by
  rw [heapPopInt, heapPop]
  split_ifs with hsize
  · rfl
  · have hlen : (moveLast heap.array 0).length = heap.array.length - 1 :=
      moveLast_length (Nat.pos_of_ne_zero hsize)
    have hpos : 0 < heap.array.length := Nat.pos_of_ne_zero hsize
    have hle : heap.array.length ≤ 2 ^ 30 := h
    dsimp only
    rw [heapifyDownInt_eq _ (by omega) (by decide), Option.map_some]

theorem heapRemoveInt_eq [DecidableEq α] (node : α) (h : heap.size ≤ 2 ^ 30) :
    heapRemoveInt compare heap node = some (heapRemove compare heap node) := by
  rw [heapRemoveInt, heapRemove]
  cases hidx : heap.array.idxOf? node with
  | none => rfl
  | some index =>
      have hlt : index < heap.array.length := (List.idxOf?_eq_some_iff.mp hidx).1
      dsimp only
      split_ifs with hlast
      · rfl
      · have hlast' : index ≠ heap.array.length - 1 := hlast
        have hlen := moveLast_length hlt
        have hle : heap.array.length ≤ 2 ^ 30 := h
        rw [heapifyDownInt_eq _ (by omega) (by omega), Option.map_some]

end Calls

end LibConn
