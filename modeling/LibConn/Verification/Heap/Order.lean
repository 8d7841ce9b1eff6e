import LibConn.Shared.TreeOrder
import LibConn.Verification.Heap.Elements
import Mathlib.Order.Defs.Unbundled

/-! # The order of the heap

Every operation keeps the heap order, for a `compare` that is a strict weak order.
`heap_remove` breaks it at one position; the walk down repairs what leaves it, and the walk
up what enters it. -/

namespace LibConn

open TreeOrder

variable {α : Type*} {compare : α → α → Bool}

/-- The strict weak order that `compare` decides. -/
abbrev Before (compare : α → α → Bool) : α → α → Prop :=
  fun x y => compare x y = true

/-- The order of the entries of `array`, by position. -/
abbrev entryBefore (compare : α → α → Bool) (array : List α) : ℕ → ℕ → Prop :=
  fun i j => Heap.below compare array i j = true

/-- No entry compares less than its parent. -/
def HeapOrdered (compare : α → α → Bool) (array : List α) : Prop :=
  Ordered (entryBefore compare array) array.length

theorem below_eq_true {array : List α} {i j : ℕ} :
    Heap.below compare array i j = true ↔
      ∃ x y, array[i]? = some x ∧ array[j]? = some y ∧ compare x y = true := by
  rw [Heap.below]
  cases array[i]? <;> cases array[j]? <;> simp

/-! ## Strict weak orders -/

section Weak

variable [IsStrictWeakOrder α (Before compare)]

theorem Before.asymm {x y : α} (h : Before compare x y) : ¬ Before compare y x :=
  fun h' => Std.Irrefl.irrefl x (IsTrans.trans x y x h h')

theorem Before.negTrans {x y z : α} (hxy : ¬ Before compare x y) (hyz : ¬ Before compare y z) :
    ¬ Before compare x z := by
  intro hxz
  by_cases hyx : Before compare y x
  · exact hyz (IsTrans.trans y x z hyx hxz)
  · by_cases hzy : Before compare z y
    · exact hxy (IsTrans.trans x z y hxz hzy)
    · exact (IsStrictWeakOrder.incomp_trans x y z ⟨hxy, hyx⟩ ⟨hyz, hzy⟩).1 hxz

theorem entryBefore_weakOn (array : List α) :
    WeakOn (entryBefore compare array) array.length where
  asymm i j hij hji := by
    obtain ⟨x, y, hx, hy, hxy⟩ := below_eq_true.mp hij
    obtain ⟨y', x', hy', hx', hyx⟩ := below_eq_true.mp hji
    rw [hx] at hx'
    rw [hy] at hy'
    cases hx'
    cases hy'
    exact Before.asymm hxy hyx
  negTrans i j k hj hij hjk hik := by
    obtain ⟨x, z, hx, hz, hxz⟩ := below_eq_true.mp hik
    have hy := List.getElem?_eq_getElem hj
    have hxy : ¬ Before compare x array[j] :=
      fun h => hij (below_eq_true.mpr ⟨x, array[j], hx, hy, h⟩)
    have hyz : ¬ Before compare array[j] z :=
      fun h => hjk (below_eq_true.mpr ⟨array[j], z, hy, hz, h⟩)
    exact Before.negTrans hxy hyz hxz

end Weak

/-! ## The two loops -/

theorem swap_getElem? {array : List α} {i j : ℕ} (hi : i < array.length) (hj : j < array.length)
    (x : ℕ) : (Heap.swap array i j)[x]? = array[Equiv.swap i j x]? := by
  simp only [Heap.swap, List.getElem?_eq_getElem hi, List.getElem?_eq_getElem hj]
  rw [Equiv.swap_apply_def, List.getElem?_set, List.getElem?_set, List.length_set]
  by_cases hxj : j = x
  · subst hxj
    rw [if_pos rfl, if_pos hj]
    by_cases hij : j = i
    · subst hij
      rw [if_pos rfl, List.getElem?_eq_getElem hj]
    · rw [if_neg hij, if_pos rfl, List.getElem?_eq_getElem hi]
  · rw [if_neg hxj, if_neg (Ne.symm hxj)]
    by_cases hxi : i = x
    · subst hxi
      rw [if_pos rfl, if_pos rfl, if_pos hi, List.getElem?_eq_getElem hj]
    · rw [if_neg hxi, if_neg (Ne.symm hxi)]

theorem entryBefore_swap {array : List α} {i j : ℕ} (hi : i < array.length)
    (hj : j < array.length) :
    entryBefore compare (Heap.swap array i j) = exchanged (entryBefore compare array) i j := by
  funext x y
  simp only [entryBefore, exchanged, Heap.below, swap_getElem? hi hj]

section Loops

/-- Where no child comes first, `heapify_down` stops. -/
theorem not_before_of_heapifyChild_eq {array : List α} {index : ℕ}
    (h : heapifyChild compare array index = index) (i : ℕ) (hpos : 0 < i)
    (hi : i < array.length) (hparent : parent i = index) :
    ¬ entryBefore compare array i index := by
  intro hlt
  unfold heapifyChild at h
  dsimp only at h
  rcases eq_or_eq_of_parent_eq hpos hparent with rfl | rfl
  · have hleft : 2 * index + 1 < array.length ∧
        Heap.below compare array (2 * index + 1) index = true := ⟨hi, hlt⟩
    rw [if_pos hleft] at h
    split_ifs at h <;> omega
  · by_cases hleft : 2 * index + 1 < array.length ∧
        Heap.below compare array (2 * index + 1) index = true
    · rw [if_pos hleft] at h
      split_ifs at h <;> omega
    · rw [if_neg hleft, if_pos ⟨hi, hlt⟩] at h
      omega

variable [IsStrictWeakOrder α (Before compare)]

theorem heapifyUp_ordered {fuel : ℕ} {array : List α} {index : ℕ} (hfuel : index ≤ fuel)
    (hindex : index < array.length)
    (h : UpReady (entryBefore compare array) array.length index) :
    HeapOrdered compare (heapifyUp compare fuel array index) := by
  induction fuel generalizing array index with
  | zero =>
      apply h.ordered
      omega
  | succ fuel ih =>
      rw [heapifyUp]
      split_ifs with hlt
      · obtain ⟨hne, hlt⟩ := hlt
        have hpos : 0 < index := Nat.pos_of_ne_zero hne
        have hparent : parent index < index := parent_lt hpos
        have hup := h.exchange (entryBefore_weakOn array) hpos hindex hlt
        rw [← entryBefore_swap hindex (hparent.trans hindex)] at hup
        apply ih
        · exact Nat.le_of_lt_succ (hparent.trans_le hfuel)
        · rw [Heap.swap_length]
          exact hparent.trans hindex
        · rw [Heap.swap_length]
          exact hup
      · apply h.ordered
        intro hpos hlt'
        exact hlt ⟨hpos.ne', hlt'⟩

theorem heapifyChild_least {array : List α} {index : ℕ}
    (h : heapifyChild compare array index ≠ index) :
    parent (heapifyChild compare array index) = index ∧
      entryBefore compare array (heapifyChild compare array index) index ∧
      ∀ i, 0 < i → i < array.length → parent i = index →
        ¬ entryBefore compare array i (heapifyChild compare array index) := by
  have hweak : WeakOn (entryBefore compare array) array.length := entryBefore_weakOn array
  have hirrefl : ∀ i, ¬ entryBefore compare array i i := fun i hi => hweak.asymm i i hi hi
  have hparentLeft : parent (2 * index + 1) = index := by
    unfold parent
    omega
  have hparentRight : parent (2 * index + 2) = index := by
    unfold parent
    omega
  have hchild : ∀ i, 0 < i → parent i = index → i = 2 * index + 1 ∨ i = 2 * index + 2 :=
    fun i hpos hparent => eq_or_eq_of_parent_eq hpos hparent
  unfold heapifyChild at h ⊢
  dsimp only at h ⊢
  by_cases hleft : 2 * index + 1 < array.length ∧
      Heap.below compare array (2 * index + 1) index = true
  · rw [if_pos hleft] at h ⊢
    split_ifs with hright
    · refine ⟨hparentRight, hweak.trans (by omega) hright.2 hleft.2, ?_⟩
      intro i hpos hi hparent
      rcases hchild i hpos hparent with rfl | rfl
      · exact hweak.asymm _ _ hright.2
      · exact hirrefl _
    · refine ⟨hparentLeft, hleft.2, ?_⟩
      intro i hpos hi hparent
      rcases hchild i hpos hparent with rfl | rfl
      · exact hirrefl _
      · exact fun hlt => hright ⟨hi, hlt⟩
  · rw [if_neg hleft] at h ⊢
    split_ifs with hright
    · refine ⟨hparentRight, hright.2, ?_⟩
      intro i hpos hi hparent
      rcases hchild i hpos hparent with rfl | rfl
      · exact fun hlt => hleft ⟨hi, hweak.trans (by omega) hlt hright.2⟩
      · exact hirrefl _
    · rw [if_neg hright] at h
      exact absurd rfl h

theorem downReady_heapifyChild {array : List α} {index : ℕ}
    (hbroken : Broken (entryBefore compare array) array.length index)
    (h : heapifyChild compare array index ≠ index) :
    DownReady (entryBefore compare (Heap.swap array index (heapifyChild compare array index)))
      (Heap.swap array index (heapifyChild compare array index)).length
      (heapifyChild compare array index) := by
  obtain ⟨hlt, hchild⟩ := heapifyChild_lt h
  obtain ⟨hparent, hbefore, hleast⟩ := heapifyChild_least h
  rw [Heap.swap_length, entryBefore_swap (hlt.trans hchild) hchild]
  exact hbroken.exchange (entryBefore_weakOn array) (Nat.zero_lt_of_lt hlt) hchild hparent
    hbefore hleast

theorem heapifyDown_ordered (fuel : ℕ) {array : List α} {index : ℕ}
    (hfuel : array.length ≤ index + fuel)
    (h : DownReady (entryBefore compare array) array.length index) :
    HeapOrdered compare (heapifyDown compare fuel array index) := by
  induction fuel generalizing array index with
  | zero =>
      apply h.ordered
      intro i hpos hi hparent
      have hlt := parent_lt hpos
      omega
  | succ fuel ih =>
      simp only [heapifyDown]
      split_ifs with hchild
      · obtain ⟨hlt, -⟩ := heapifyChild_lt hchild
        apply ih
        · rw [Heap.swap_length]
          omega
        · exact downReady_heapifyChild h.toBroken hchild
      · apply h.ordered
        exact not_before_of_heapifyChild_eq (not_not.mp hchild)

/-- Where both kinds of edges may be broken, `heapify_down` leaves at most the one that
enters `index`: the child that moves up belongs behind the parent. -/
theorem heapifyDown_upReady {fuel : ℕ} {array : List α} {index : ℕ}
    (hindex : index < array.length) (hfuel : array.length ≤ index + fuel)
    (h : Broken (entryBefore compare array) array.length index) :
    UpReady (entryBefore compare (heapifyDown compare fuel array index)) array.length index := by
  cases fuel with
  | zero => omega
  | succ fuel =>
      simp only [heapifyDown]
      split_ifs with hchild
      · obtain ⟨hlt, -⟩ := heapifyChild_lt hchild
        have hdown := downReady_heapifyChild h hchild
        have hordered := heapifyDown_ordered fuel (by rw [Heap.swap_length]; omega) hdown
        have hlen : (heapifyDown compare fuel
            (Heap.swap array index (heapifyChild compare array index))
            (heapifyChild compare array index)).length = array.length := by
          rw [(heapifyDown_perm fuel _ _).length_eq, Heap.swap_length]
        rw [HeapOrdered, hlen] at hordered
        apply hordered.upReady _ hindex
        rw [← hlen]
        exact entryBefore_weakOn _
      · exact ⟨h, not_before_of_heapifyChild_eq (not_not.mp hchild)⟩

end Loops

/-! ## The operations -/

section Operations

variable {array : List α}

theorem below_congr {before after : List α} {i j : ℕ} (hi : after[i]? = before[i]?)
    (hj : after[j]? = before[j]?) :
    entryBefore compare after i j ↔ entryBefore compare before i j := by
  simp only [entryBefore, Heap.below, hi, hj]

theorem moveLast_length {index : ℕ} (h : index < array.length) :
    (moveLast array index).length = array.length - 1 := by
  rw [(moveLast_perm h).length_eq, List.length_eraseIdx_of_lt h]

theorem moveLast_getElem? {index i : ℕ} (hne : i ≠ index) (hi : i < array.length - 1) :
    (moveLast array index)[i]? = array[i]? := by
  have hnil : array ≠ [] := by
    rintro rfl
    simp at hi
  rw [moveLast, List.getLast?_eq_getLast_of_ne_nil hnil]
  simp only
  rw [List.getElem?_dropLast, List.length_set, if_pos hi, List.getElem?_set_ne hne.symm]

theorem dropLast_ordered (h : HeapOrdered compare array) :
    HeapOrdered compare array.dropLast := by
  intro i hpos hi
  have hlt := parent_lt hpos
  rw [List.length_dropLast] at hi
  have hi' : array.dropLast[i]? = array[i]? := by
    rw [List.getElem?_dropLast, if_pos hi]
  have hj' : array.dropLast[parent i]? = array[parent i]? := by
    rw [List.getElem?_dropLast, if_pos (hlt.trans hi)]
  rw [below_congr hi' hj']
  exact h i hpos (by omega)

variable [IsStrictWeakOrder α (Before compare)]

/-- Moving the last entry to `index` breaks the order there and nowhere else. -/
theorem moveLast_broken {index : ℕ} (h : HeapOrdered compare array)
    (hindex : index < array.length) :
    Broken (entryBefore compare (moveLast array index)) (moveLast array index).length index := by
  have hbroken : Broken (entryBefore compare array) array.length index :=
    h.broken (entryBefore_weakOn array) hindex
  rw [moveLast_length hindex]
  constructor
  · intro i hpos hi hne hparent
    have hlt := parent_lt hpos
    have hi' := moveLast_getElem? hne hi
    have hj' := moveLast_getElem? hparent (hlt.trans hi)
    rw [below_congr hi' hj']
    exact hbroken.off i hpos (by omega) hne hparent
  · intro i hpos hi hparent hkpos
    have hlt := parent_lt hpos
    have hlt' := parent_lt hkpos
    have hi' := moveLast_getElem? (show i ≠ index by omega) hi
    have hj' := moveLast_getElem? (show parent index ≠ index by omega)
      (show parent index < array.length - 1 by omega)
    rw [below_congr hi' hj']
    exact hbroken.across i hpos (by omega) hparent hkpos

theorem heapInsert_ordered {heap : Heap α} (node : α) (h : HeapOrdered compare heap.array) :
    HeapOrdered compare (heapInsert compare heap node).array := by
  rw [heapInsert]
  split_ifs
  · exact h
  · have hlen : (heap.array ++ [node]).length = heap.size + 1 := by
      simp [Heap.size]
    have hold : ∀ i, i < heap.size → (heap.array ++ [node])[i]? = heap.array[i]? :=
      fun i hi => List.getElem?_append_left hi
    apply heapifyUp_ordered le_rfl
    · omega
    · rw [hlen]
      refine ⟨⟨?_, ?_⟩, ?_⟩
      · intro i hpos hi hne _
        have hlt := parent_lt hpos
        rw [below_congr (hold i (by omega)) (hold (parent i) (by omega))]
        exact h i hpos (show i < heap.size by omega)
      all_goals
        intro i hpos hi hparent
        have hlt := parent_lt hpos
        omega

theorem heapPop_ordered {heap : Heap α} (h : HeapOrdered compare heap.array) :
    HeapOrdered compare (heapPop compare heap).array := by
  rw [heapPop]
  split_ifs with hsize
  · exact h
  · have hpos : 0 < heap.array.length := Nat.pos_of_ne_zero hsize
    apply heapifyDown_ordered
    · omega
    · exact ⟨moveLast_broken h hpos, fun hlt => absurd hlt (Nat.lt_irrefl 0)⟩

theorem heapRemove_ordered [DecidableEq α] {heap : Heap α} (node : α)
    (h : HeapOrdered compare heap.array) :
    HeapOrdered compare (heapRemove compare heap node).array := by
  rw [heapRemove]
  cases hidx : heap.array.idxOf? node with
  | none => exact h
  | some index =>
      have hlt : index < heap.array.length := (List.idxOf?_eq_some_iff.mp hidx).1
      dsimp only
      split_ifs with hlast
      · exact dropLast_ordered h
      · have hlast' : index ≠ heap.array.length - 1 := hlast
        have hlen := moveLast_length hlt
        have hlen' : (heapifyDown compare (moveLast heap.array index).length
            (moveLast heap.array index) index).length = (moveLast heap.array index).length :=
          (heapifyDown_perm _ _ _).length_eq
        apply heapifyUp_ordered le_rfl
        · omega
        · rw [hlen']
          apply heapifyDown_upReady
          · omega
          · omega
          · exact moveLast_broken h hlt

/-- The root is a minimal node. -/
theorem HeapOrdered.top {heap : Heap α} (h : HeapOrdered compare heap.array) {top : α}
    (htop : heapTop heap = some top) :
    top ∈ heap.array ∧ ∀ node ∈ heap.array, ¬ Before compare node top := by
  have hhead : heap.array[0]? = some top := by
    rwa [heapTop, List.head?_eq_getElem?] at htop
  refine ⟨List.mem_of_getElem? hhead, ?_⟩
  intro node hnode hlt
  obtain ⟨i, hi⟩ := List.mem_iff_getElem?.mp hnode
  have hroot := h.root (entryBefore_weakOn heap.array) (List.getElem?_eq_some_iff.mp hi).1
  exact hroot (below_eq_true.mpr ⟨node, top, hi, hhead, hlt⟩)

end Operations

/-! ## Changing keys

`compare` reads keys that callers may change. Where two of them agree on the nodes that are
looked at, they order the heap in the same way. -/

section Keys

variable {compare' : α → α → Bool} {array : List α}

/-- `compare` and `compare'` agree on `nodes`. -/
def AgreeOn (compare compare' : α → α → Bool) (nodes : List α) : Prop :=
  ∀ x ∈ nodes, ∀ y ∈ nodes, compare x y = compare' x y

theorem AgreeOn.perm {other : List α} (h : AgreeOn compare compare' array)
    (hperm : other.Perm array) : AgreeOn compare compare' other :=
  fun x hx y hy => h x (hperm.mem_iff.mp hx) y (hperm.mem_iff.mp hy)

theorem AgreeOn.below (h : AgreeOn compare compare' array) (i j : ℕ) :
    Heap.below compare array i j = Heap.below compare' array i j := by
  rw [Heap.below, Heap.below]
  cases hi : array[i]? with
  | none => rfl
  | some x =>
      cases hj : array[j]? with
      | none => rfl
      | some y => exact h x (List.mem_of_getElem? hi) y (List.mem_of_getElem? hj)

theorem HeapOrdered.congr (hordered : HeapOrdered compare array)
    (h : AgreeOn compare compare' array) : HeapOrdered compare' array := by
  intro i hpos hi hlt
  exact hordered i hpos hi ((h.below i (parent i)).trans hlt)

theorem heapifyDown_congr (fuel : ℕ) {index : ℕ} (h : AgreeOn compare compare' array) :
    heapifyDown compare fuel array index = heapifyDown compare' fuel array index := by
  induction fuel generalizing array index with
  | zero => rfl
  | succ fuel ih =>
      have hchild : heapifyChild compare array index = heapifyChild compare' array index := by
        simp only [heapifyChild, h.below]
      simp only [heapifyDown, hchild, ih (h.perm (Heap.swap_perm array index _))]

/-- `heap_pop` does not look at the key of the node it takes out. -/
theorem heapPop_congr {heap : Heap α} {top : α} {rest : List α} (harray : heap.array = top :: rest)
    (h : AgreeOn compare compare' rest) : heapPop compare heap = heapPop compare' heap := by
  have hperm : (moveLast heap.array 0).Perm rest := by
    have hmove : (moveLast heap.array 0).Perm (heap.array.eraseIdx 0) :=
      moveLast_perm (by simp [harray])
    rwa [harray, List.eraseIdx_zero, List.tail_cons, ← harray] at hmove
  simp only [heapPop, heapifyDown_congr _ (h.perm hperm)]

end Keys

end LibConn
