import LibConn.Verification.Heap.Positions
import Mathlib.Data.List.Induction
import Mathlib.Data.Multiset.AddSub

/-! # The heap as a priority queue

The nodes of a heap are those of a bounded multiset that takes the same calls, its top is a
minimal node, and popping until the heap is empty sorts them. -/

namespace LibConn

open Run

variable {α : Type*}

/-! ## The reference -/

/-- A multiset with room for `capacity` nodes. -/
@[ext] structure Bag (α : Type*) (capacity : ℕ) where
  nodes : Multiset α
  bounded : nodes.card ≤ capacity

/-- `top` is one of the nodes that no other node comes before. -/
def Minimal (before : α → α → Prop) (nodes : Multiset α) (top : α) : Prop :=
  top ∈ nodes ∧ ∀ node ∈ nodes, ¬ before node top

/-- What a call does to a bounded multiset; which of several minimal nodes `pop` takes is
left open. -/
inductive Bag.Step [DecidableEq α] (before : α → α → Prop) {capacity : ℕ} :
    Bag α capacity → HeapCall α → Bag α capacity → Prop
  | insert {bag after : Bag α capacity} {node : α} (room : bag.nodes.card < capacity)
      (h : after.nodes = node ::ₘ bag.nodes) : Bag.Step before bag (.insert node) after
  | insertFull {bag : Bag α capacity} {node : α} (full : bag.nodes.card = capacity) :
      Bag.Step before bag (.insert node) bag
  | pop {bag after : Bag α capacity} {top : α} (minimal : Minimal before bag.nodes top)
      (h : after.nodes = bag.nodes.erase top) : Bag.Step before bag .pop after
  | popEmpty {bag : Bag α capacity} (empty : bag.nodes = 0) : Bag.Step before bag .pop bag
  | remove {bag after : Bag α capacity} {node : α} (h : after.nodes = bag.nodes.erase node) :
      Bag.Step before bag (.remove node) after
  | top {bag : Bag α capacity} : Bag.Step before bag .top bag

/-- The multisets that a list of calls can lead to. -/
inductive Bag.Run [DecidableEq α] (before : α → α → Prop) {capacity : ℕ} :
    List (HeapCall α) → Bag α capacity → Prop
  | start {bag : Bag α capacity} (h : bag.nodes = 0) : Bag.Run before [] bag
  | step {calls : List (HeapCall α)} {bag after : Bag α capacity} {call : HeapCall α}
      (hrun : Bag.Run before calls bag) (hstep : Bag.Step before bag call after) :
      Bag.Run before (calls ++ [call]) after

/-! ## Popping until empty -/

variable {compare : α → α → Bool}

theorem heapTop_eq_none {heap : Heap α} : heapTop heap = none ↔ heap.array = [] :=
  List.head?_eq_none_iff

theorem heapPop_perm_of_top {heap : Heap α} {top : α} (h : heapTop heap = some top) :
    (top :: (heapPop compare heap).array).Perm heap.array := by
  have hcons : top :: heap.array.tail = heap.array := List.cons_head?_tail h
  exact ((heapPop_perm compare heap).cons top).trans (.of_eq hcons)

/-- Every node comes out exactly once, and none behind one that it comes before. -/
theorem drain_sorts [IsStrictWeakOrder α (Before compare)] (fuel : ℕ) {heap : Heap α}
    (hfuel : heap.size ≤ fuel) (hsize : heap.size ≤ 2 ^ 30) (h : HeapOrdered compare heap.array) :
    ∃ nodes, drain compare fuel heap = some nodes ∧ nodes.Perm heap.array ∧
      nodes.Pairwise fun x y => ¬ Before compare y x := by
  induction fuel generalizing heap with
  | zero =>
      have hnil : heap.array = [] := List.length_eq_zero_iff.mp (Nat.le_zero.mp hfuel)
      exact ⟨[], rfl, .of_eq hnil.symm, .nil⟩
  | succ fuel ih =>
      rw [drain]
      cases htop : heapTop heap with
      | none => exact ⟨[], rfl, .of_eq (heapTop_eq_none.mp htop).symm, .nil⟩
      | some top =>
          have hperm : (top :: (heapPop compare heap).array).Perm heap.array :=
            heapPop_perm_of_top htop
          have hlen : (heapPop compare heap).size + 1 = heap.size := hperm.length_eq
          obtain ⟨nodes, hnodes, hrest, hsorted⟩ := ih (by omega) (by omega) (heapPop_ordered h)
          refine ⟨top :: nodes, ?_, (hrest.cons top).trans hperm, List.pairwise_cons.mpr ⟨?_, hsorted⟩⟩
          · dsimp only
            rw [heapPopInt_eq hsize, Option.bind_eq_bind, Option.bind_some, hnodes]
            rfl
          · intro node hnode
            have hmem : node ∈ (heapPop compare heap).array := hrest.mem_iff.mp hnode
            exact (h.top htop).2 node (hperm.mem_iff.mp (List.mem_cons_of_mem top hmem))

/-! ## Runs -/

section Runs

/-- What every heap keeps that is only used through its calls. -/
structure HeapInvariant (compare : α → α → Bool) (capacity : ℕ) (heap : Heap α) : Prop where
  ordered : HeapOrdered compare heap.array
  capacity_eq : heap.capacity = capacity
  size_le : heap.size ≤ capacity

theorem heapInvariant_create (capacity : ℕ) :
    HeapInvariant compare capacity (createHeap capacity) where
  ordered i _ hi := absurd hi (Nat.not_lt_zero i)
  capacity_eq := rfl
  size_le := Nat.zero_le capacity

variable {capacity : ℕ} {heap : Heap α}

/-- The nodes in the heap, as the reference holds them. -/
def HeapInvariant.bag (h : HeapInvariant compare capacity heap) : Bag α capacity where
  nodes := heap.array
  bounded := h.size_le

theorem HeapInvariant.bag_congr {heap' : Heap α} (h : HeapInvariant compare capacity heap)
    (h' : HeapInvariant compare capacity heap') (heq : heap = heap') : h.bag = h'.bag := by
  subst heq
  rfl

variable [IsStrictWeakOrder α (Before compare)]

theorem HeapInvariant.insert (h : HeapInvariant compare capacity heap) (node : α) :
    HeapInvariant compare capacity (heapInsert compare heap node) := by
  have hsize := h.size_le
  refine ⟨heapInsert_ordered node h.ordered, by rw [heapInsert_capacity, h.capacity_eq], ?_⟩
  rcases hsize.lt_or_eq with hlt | heq
  · have hroom : heap.size < heap.capacity := by rwa [h.capacity_eq]
    have hlen : (heapInsert compare heap node).size = heap.size + 1 :=
      (heapInsert_perm compare node hroom).length_eq
    omega
  · rw [heapInsert_full node (by rw [heq, h.capacity_eq])]
    exact hsize

theorem HeapInvariant.pop (h : HeapInvariant compare capacity heap) :
    HeapInvariant compare capacity (heapPop compare heap) := by
  refine ⟨heapPop_ordered h.ordered, by rw [heapPop_capacity, h.capacity_eq], ?_⟩
  have hlen : (heapPop compare heap).size = heap.array.tail.length :=
    (heapPop_perm compare heap).length_eq
  have htail : heap.array.tail.length = heap.size - 1 := List.length_tail
  have hsize := h.size_le
  omega

variable [DecidableEq α]

theorem HeapInvariant.remove (h : HeapInvariant compare capacity heap) (node : α) :
    HeapInvariant compare capacity (heapRemove compare heap node) := by
  refine ⟨heapRemove_ordered node h.ordered, by rw [heapRemove_capacity, h.capacity_eq], ?_⟩
  have hlen : (heapRemove compare heap node).size = (heap.array.erase node).length :=
    (heapRemove_perm compare heap node).length_eq
  have herase : (heap.array.erase node).length ≤ heap.size := List.length_erase_le
  have hsize := h.size_le
  omega

/-- What a call leaves of the heap where no position overflows. -/
def Heap.after (compare : α → α → Bool) (heap : Heap α) : HeapCall α → Heap α
  | .insert node => heapInsert compare heap node
  | .pop => heapPop compare heap
  | .remove node => heapRemove compare heap node
  | .top => heap

theorem HeapInvariant.after (h : HeapInvariant compare capacity heap) (call : HeapCall α) :
    HeapInvariant compare capacity (heap.after compare call) := by
  cases call with
  | insert node => exact h.insert node
  | pop => exact h.pop
  | remove node => exact h.remove node
  | top => exact h

theorem HeapInvariant.step (h : HeapInvariant compare capacity heap) (call : HeapCall α) :
    Bag.Step (Before compare) h.bag call (h.after call).bag := by
  cases call with
  | insert node =>
      rcases h.size_le.lt_or_eq with hlt | heq
      · have hroom : heap.size < heap.capacity := by rwa [h.capacity_eq]
        apply Bag.Step.insert
        · exact hlt
        · exact Multiset.coe_eq_coe.mpr (heapInsert_perm compare node hroom)
      · have hfull : heap.after compare (.insert node) = heap :=
          heapInsert_full node (by rw [heq, h.capacity_eq])
        rw [(h.after (.insert node)).bag_congr h hfull]
        exact Bag.Step.insertFull heq
  | pop =>
      cases htop : heapTop heap with
      | none =>
          have hnil := heapTop_eq_none.mp htop
          have hsame : heap.after compare .pop = heap :=
            if_pos (show heap.array.length = 0 by rw [hnil]; rfl)
          rw [(h.after .pop).bag_congr h hsame]
          apply Bag.Step.popEmpty
          simp [HeapInvariant.bag, hnil]
      | some top =>
          have hperm : (top :: (heapPop compare heap).array).Perm heap.array :=
            heapPop_perm_of_top htop
          have herase := hperm.erase top
          rw [List.erase_cons_head] at herase
          exact Bag.Step.pop (h.ordered.top htop) (Multiset.coe_eq_coe.mpr herase)
  | remove node =>
      apply Bag.Step.remove
      exact Multiset.coe_eq_coe.mpr (heapRemove_perm compare heap node)
  | top => exact Bag.Step.top

/-- A call that walks down meets at most 2 ^ 30 nodes. -/
def WalksWithin (heap : Heap α) : HeapCall α → Prop
  | .pop | .remove _ => heap.size ≤ 2 ^ 30
  | .insert _ | .top => True

omit [IsStrictWeakOrder α (Before compare)] in
theorem HeapInvariant.call_eq (h : HeapInvariant compare capacity heap)
    (hcapacity : capacity ≤ intMax) {call : HeapCall α} (hwalk : WalksWithin heap call) :
    heap.call compare call = some (heap.after compare call) := by
  cases call with
  | insert node =>
      exact heapInsertInt_eq node (h.capacity_eq.trans_le hcapacity)
        (h.size_le.trans_eq h.capacity_eq.symm)
  | pop => exact heapPopInt_eq hwalk
  | remove node => exact heapRemoveInt_eq node hwalk
  | top => rfl

/-- What a bounded priority queue offers, as far as one state of the heap goes. -/
structure PriorityQueue (compare : α → α → Bool) (heap : Heap α) : Prop where
  ordered : HeapOrdered compare heap.array
  top : ∀ node, heapTop heap = some node → Minimal (Before compare) heap.array node
  top_none : heapTop heap = none ↔ heap.array = []
  drained : heap.size ≤ 2 ^ 30 → ∃ nodes, drain compare heap.size heap = some nodes ∧
    nodes.Perm heap.array ∧ nodes.Pairwise fun x y => ¬ Before compare y x

/-- The heap holds what the reference can hold after these calls, and what the next call does is a
step of the reference. -/
def FollowsBag (compare : α → α → Bool) (capacity : ℕ) (calls : List (HeapCall α)) (heap : Heap α) :
    Prop :=
  ∃ bag : Bag α capacity, bag.nodes = heap.array ∧ Bag.Run (Before compare) calls bag ∧
    ∀ call, WalksWithin heap call →
      ∃ (heap' : Heap α) (after : Bag α capacity), heap.call compare call = some heap' ∧
        after.nodes = heap'.array ∧ Bag.Step (Before compare) bag call after

omit [DecidableEq α] in
theorem HeapInvariant.priorityQueue (h : HeapInvariant compare capacity heap) :
    PriorityQueue compare heap where
  ordered := h.ordered
  top _ := h.ordered.top
  top_none := heapTop_eq_none
  drained hsize := drain_sorts _ le_rfl hsize h.ordered

/-- Where no call that walks down meets more than 2 ^ 30 nodes, every call of a run comes to its
end, and after each the heap is a priority queue that follows the reference. -/
theorem heap_priorityQueue (compare : α → α → Bool) [IsStrictWeakOrder α (Before compare)]
    (capacity : ℕ) (hcapacity : capacity ≤ intMax) (calls : List (HeapCall α))
    (h : Attempts (Heap.call compare) WalksWithin (createHeap capacity) calls) :
    ∀ done, done <+: calls →
      ∃ heap, heapRun compare capacity done = some heap ∧ PriorityQueue compare heap ∧
        FollowsBag compare capacity done heap := by
  rintro done ⟨rest, rfl⟩
  obtain ⟨heap, hexec, hheap, hrun⟩ := exec_of_attempts
    (I := fun done heap => ∃ h : HeapInvariant compare capacity heap,
      Bag.Run (Before compare) done h.bag)
    (fun done heap call ⟨h, hrun⟩ hwalk =>
      ⟨_, h.call_eq hcapacity hwalk, h.after call, .step hrun (h.step call)⟩)
    ⟨heapInvariant_create capacity, .start rfl⟩ h.of_append
  refine ⟨heap, hexec, hheap.priorityQueue, hheap.bag, rfl, hrun, fun call hwalk => ?_⟩
  exact ⟨_, (hheap.after call).bag, hheap.call_eq hcapacity hwalk, rfl, hheap.step call⟩

theorem weakOrder_lt : IsStrictWeakOrder ℕ (Before fun x y => decide (x < y)) where
  irrefl := by simp
  trans x y z hxy hyz := by
    simp only [decide_eq_true_eq] at hxy hyz ⊢
    omega
  incomp_trans x y z hxy hyz := by
    simp only [decide_eq_true_eq] at hxy hyz ⊢
    omega

/-- Three nodes in a heap for four, one of which is removed from the middle. -/
theorem heap_priorityQueue_nat :
    ∃ heap, heapRun (fun x y : ℕ => decide (x < y)) 4
        [.insert 5, .insert 3, .insert 7, .remove 3] = some heap ∧
      PriorityQueue (fun x y => decide (x < y)) heap ∧
      FollowsBag (fun x y => decide (x < y)) 4 [.insert 5, .insert 3, .insert 7, .remove 3] heap := by
  have := weakOrder_lt
  exact heap_priorityQueue (fun x y : ℕ => decide (x < y)) 4 (by decide)
    [.insert 5, .insert 3, .insert 7, .remove 3]
    (.cons trivial rfl (.cons trivial rfl (.cons trivial rfl (.cons (by unfold WalksWithin; decide) rfl trivial))))
    _ (List.prefix_refl _)

/-! ## Behind 2 ^ 30 nodes -/

section Increasing

theorem heapInsertInt_range {n capacity : ℕ} (hn : n < capacity) (hcapacity : capacity ≤ intMax) :
    heapInsertInt (fun x y => decide (x < y)) ⟨List.range n, capacity⟩ n =
      some ⟨List.range (n + 1), capacity⟩ := by
  have hsize : Heap.size ⟨List.range n, capacity⟩ = n := List.length_range
  rw [heapInsertInt, hsize, if_neg hn.ne, if_neg (by omega), heapInsert, hsize, if_neg hn.ne]
  have hup : heapifyUp (fun x y => decide (x < y)) n (List.range n ++ [n]) n = List.range n ++ [n] := by
    cases n with
    | zero => rfl
    | succ n =>
        rw [heapifyUp, if_neg]
        rintro ⟨-, hbelow⟩
        obtain ⟨x, y, hx, hy, hlt⟩ := below_eq_true.mp hbelow
        rw [← List.range_succ, List.getElem?_range (by omega)] at hx hy
        obtain rfl := Option.some.inj hx
        obtain rfl := Option.some.inj hy
        rw [decide_eq_true_eq] at hlt
        omega
  dsimp only
  rw [hup, List.range_succ]

theorem heapRun_range {n capacity : ℕ} (hn : n ≤ capacity) (hcapacity : capacity ≤ intMax) :
    heapRun (fun x y : ℕ => decide (x < y)) capacity ((List.range n).map .insert) =
      some ⟨List.range n, capacity⟩ := by
  induction n with
  | zero => rfl
  | succ n ih =>
      rw [heapRun, List.range_succ, List.map_append, List.map_singleton, exec_concat]
      rw [heapRun] at ih
      rw [ih (by omega), Option.bind_some, ← List.range_succ]
      exact heapInsertInt_range hn hcapacity

/-- Removing the node at the position 2 ^ 30 - 1 overflows. -/
theorem heapRemoveInt_range {n capacity : ℕ} (hn : 2 ^ 30 - 1 ≤ n) :
    heapRemoveInt (fun x y => decide (x < y)) ⟨List.range (n + 2), capacity⟩ n = none := by
  have hidx : (List.range (n + 2)).idxOf? n = some n := by
    rw [List.idxOf?_eq_some_iff]
    refine ⟨by simp, by simp, fun j hj => ?_⟩
    simp
    omega
  have hsize : Heap.size ⟨List.range (n + 2), capacity⟩ = n + 2 := List.length_range
  rw [heapRemoveInt]
  dsimp only
  rw [hidx]
  dsimp only
  rw [hsize, if_neg (by omega), heapifyDownInt_overflows _ hn]
  · rfl
  · rw [moveLast_length (by simp), List.length_range]
    omega

/-- No heap is left behind the removal. -/
theorem not_heap_priorityQueue_remove :
    IsStrictWeakOrder ℕ (Before fun x y => decide (x < y)) ∧ 2 ^ 30 + 1 ≤ intMax ∧
      ¬ ∃ heap, heapRun (fun x y : ℕ => decide (x < y)) (2 ^ 30 + 1)
          ((List.range (2 ^ 30 + 1)).map .insert ++ [.remove (2 ^ 30 - 1)]) = some heap ∧
        PriorityQueue (fun x y => decide (x < y)) heap := by
  refine ⟨weakOrder_lt, by decide, ?_⟩
  rintro ⟨heap, hrun, -⟩
  have hall := heapRun_range (n := 2 ^ 30 + 1) (le_refl (2 ^ 30 + 1)) (by decide)
  rw [heapRun] at hall
  rw [heapRun, exec_concat, hall, Option.bind_some] at hrun
  obtain ⟨n, hn⟩ : ∃ n, n = 2 ^ 30 - 1 := ⟨_, rfl⟩
  have hlast : 2 ^ 30 + 1 = n + 2 := by omega
  rw [Heap.call, ← hn, hlast, heapRemoveInt_range hn.ge] at hrun
  cases hrun

end Increasing

end Runs

end LibConn
