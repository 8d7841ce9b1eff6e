import LibConn.Model.Heap
import Mathlib.Data.List.Perm.Basic
import Mathlib.Data.Nat.Basic

/-! # Which nodes a heap holds

The operations add and take away exactly the node they name, whatever `compare` is. -/

namespace LibConn

open List

variable {α : Type*} {compare : α → α → Bool}

theorem Heap.swap_perm (array : List α) (i j : ℕ) : (Heap.swap array i j).Perm array := by
  rw [Heap.swap]
  split
  · rename_i x y hx hy
    obtain ⟨hi, rfl⟩ := List.getElem?_eq_some_iff.mp hx
    obtain ⟨hj, rfl⟩ := List.getElem?_eq_some_iff.mp hy
    exact List.set_set_perm hi hj
  · exact .refl _

@[simp] theorem Heap.swap_length (array : List α) (i j : ℕ) :
    (Heap.swap array i j).length = array.length :=
  (Heap.swap_perm array i j).length_eq

theorem heapifyUp_perm (fuel : ℕ) (array : List α) (index : ℕ) :
    (heapifyUp compare fuel array index).Perm array := by
  induction fuel generalizing array index with
  | zero => exact .refl _
  | succ fuel ih =>
      rw [heapifyUp]
      split_ifs
      · exact (ih _ _).trans (Heap.swap_perm _ _ _)
      · exact .refl _

theorem heapifyDown_perm (fuel : ℕ) (array : List α) (index : ℕ) :
    (heapifyDown compare fuel array index).Perm array := by
  induction fuel generalizing array index with
  | zero => exact .refl _
  | succ fuel ih =>
      simp only [heapifyDown]
      split_ifs
      · exact (ih _ _).trans (Heap.swap_perm _ _ _)
      · exact .refl _

/-- Moving the last entry over another one takes that one away. -/
theorem moveLast_perm {array : List α} {index : ℕ} (h : index < array.length) :
    (moveLast array index).Perm (array.eraseIdx index) := by
  obtain ⟨front, last, rfl⟩ : ∃ front last, array = front ++ [last] :=
    ⟨_, _, (List.dropLast_append_getLast (List.ne_nil_of_length_pos (by omega))).symm⟩
  have hlen : front.length + 1 = (front ++ [last]).length := by simp
  simp only [moveLast, List.getLast?_append, List.getLast?_singleton, Option.some_or]
  rcases Nat.lt_or_ge index front.length with hi | hi
  · rw [List.set_append_left _ _ hi, List.dropLast_concat, List.eraseIdx_append_of_lt_length hi]
    have hset : (front.set index last).Perm (last :: front.eraseIdx index) := by
      exact List.set_perm_cons_eraseIdx hi last
    exact hset.trans (List.perm_append_singleton _ _).symm
  · obtain rfl : index = front.length := by omega
    rw [List.set_append_right _ _ (Nat.le_refl _),
      List.eraseIdx_append_of_length_le (Nat.le_refl _)]
    simp

theorem heapInsert_perm (compare : α → α → Bool) {heap : Heap α} (node : α)
    (h : heap.size < heap.capacity) :
    (heapInsert compare heap node).array.Perm (node :: heap.array) := by
  rw [heapInsert, if_neg (Nat.ne_of_lt h)]
  exact (heapifyUp_perm _ _ _).trans (List.perm_append_singleton _ _)

/-- A full heap refuses the node. -/
theorem heapInsert_full {heap : Heap α} (node : α) (h : heap.size = heap.capacity) :
    heapInsert compare heap node = heap :=
  if_pos h

theorem heapPop_perm (compare : α → α → Bool) (heap : Heap α) :
    (heapPop compare heap).array.Perm heap.array.tail := by
  rw [heapPop]
  split_ifs with h
  · simp [List.length_eq_zero_iff.mp h]
  · have hpos : 0 < heap.array.length := Nat.pos_of_ne_zero h
    exact (heapifyDown_perm _ _ _).trans
      ((moveLast_perm hpos).trans (by rw [List.eraseIdx_zero]))

theorem heapRemove_perm [DecidableEq α] (compare : α → α → Bool) (heap : Heap α) (node : α) :
    (heapRemove compare heap node).array.Perm (heap.array.erase node) := by
  rw [List.erase_eq_eraseIdx]
  rw [heapRemove]
  cases hidx : heap.array.idxOf? node with
  | none => exact .refl _
  | some index =>
      have hlt : index < heap.array.length := (List.idxOf?_eq_some_iff.mp hidx).1
      dsimp only
      split_ifs with hlast
      · have hsize : index + 1 = heap.array.length := by
          have hlast' : index = heap.array.length - 1 := hlast
          omega
        rw [List.eraseIdx_eq_dropLast hsize]
      · exact (heapifyUp_perm _ _ _).trans
          ((heapifyDown_perm _ _ _).trans (moveLast_perm hlt))

@[simp] theorem heapInsert_capacity (heap : Heap α) (node : α) :
    (heapInsert compare heap node).capacity = heap.capacity := by
  rw [heapInsert]
  split_ifs <;> rfl

@[simp] theorem heapPop_capacity (heap : Heap α) :
    (heapPop compare heap).capacity = heap.capacity := by
  rw [heapPop]
  split_ifs <;> rfl

@[simp] theorem heapRemove_capacity [DecidableEq α] (heap : Heap α) (node : α) :
    (heapRemove compare heap node).capacity = heap.capacity := by
  rw [heapRemove]
  split
  · rfl
  · split_ifs <;> rfl

/-! ## Fuel -/

/-- `heapify_up` ends: it passes through at most `index` positions. -/
theorem heapifyUp_fuel {index : ℕ} {m n : ℕ} (hm : index ≤ m) (hn : index ≤ n) (array : List α) :
    heapifyUp compare m array index = heapifyUp compare n array index := by
  induction m generalizing index n array with
  | zero =>
      obtain rfl : index = 0 := by omega
      cases n <;> simp [heapifyUp]
  | succ m ih =>
      cases n with
      | zero =>
          obtain rfl : index = 0 := by omega
          simp [heapifyUp]
      | succ n =>
          simp only [heapifyUp]
          split_ifs with h
          · exact ih (by omega) (by omega) _
          · rfl

theorem heapifyChild_lt {array : List α} {index : ℕ}
    (h : heapifyChild compare array index ≠ index) :
    index < heapifyChild compare array index ∧
      heapifyChild compare array index < array.length := by
  unfold heapifyChild at h ⊢
  dsimp only at h ⊢
  split_ifs at h ⊢ <;> omega

/-- `heapify_down` ends: it passes through at most the positions behind `index`. -/
theorem heapifyDown_fuel {array : List α} {index : ℕ} {m n : ℕ} (hm : array.length ≤ index + m)
    (hn : array.length ≤ index + n) :
    heapifyDown compare m array index = heapifyDown compare n array index := by
  have hstuck : ∀ (array : List α) (index k : ℕ), array.length ≤ index →
      heapifyDown compare k array index = array := by
    intro array index k hle
    cases k with
    | zero => rfl
    | succ k =>
        have hchild : heapifyChild compare array index = index := by
          by_contra h
          have hlt := heapifyChild_lt h
          omega
        simp [heapifyDown, hchild]
  induction m generalizing array index n with
  | zero => rw [hstuck array index 0 hm, hstuck array index n hm]
  | succ m ih =>
      cases n with
      | zero => rw [hstuck array index _ hn, hstuck array index 0 hn]
      | succ n =>
          simp only [heapifyDown]
          split_ifs with h
          · obtain ⟨hlt, -⟩ := heapifyChild_lt h
            exact ih (by simp; omega) (by simp; omega)
          · rfl

end LibConn
