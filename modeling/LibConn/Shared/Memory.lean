import Mathlib.Data.List.Basic
import Mathlib.Data.List.Range

/-! # Runs of memory cells

A block of memory is a function from positions to cells; `copy` is `memcpy` into it and
`slice` what lies between two positions. -/

namespace LibConn.Memory

variable {α : Type*}

/-- Store `cells` from position `start` on. -/
def copy (base : ℕ → α) (start : ℕ) (cells : List α) : ℕ → α := fun i =>
  if i < start then base i else (cells[i - start]?).getD (base i)

/-- The cells at the positions `head ≤ i < tail`. -/
def slice (base : ℕ → α) (head tail : ℕ) : List α :=
  (List.range' head (tail - head)).map base

variable {base : ℕ → α} {head tail : ℕ}

@[simp] theorem slice_length : (slice base head tail).length = tail - head := by
  simp [slice]

@[simp] theorem slice_self : slice base head head = [] := by
  simp [slice]

theorem slice_drop (n : ℕ) : slice base (head + n) tail = (slice base head tail).drop n := by
  rw [slice, slice, ← List.map_drop, List.drop_range']
  congr 2 <;> omega

theorem slice_take {n : ℕ} (h : head + n ≤ tail) :
    slice base head (head + n) = (slice base head tail).take n := by
  rw [slice, slice, ← List.map_take, List.take_range'_of_length_ge (by omega),
    Nat.add_sub_cancel_left]

theorem slice_cons (h : head < tail) :
    slice base head tail = base head :: slice base (head + 1) tail := by
  obtain ⟨n, rfl⟩ := Nat.exists_eq_add_of_lt h
  rw [slice, slice, show head + n + 1 - head = n + 1 by omega,
    show head + n + 1 - (head + 1) = n by omega]
  rfl

theorem slice_append {mid : ℕ} (h : head ≤ mid) (h' : mid ≤ tail) :
    slice base head mid ++ slice base mid tail = slice base head tail := by
  rw [slice, slice, slice, ← List.map_append]
  congr 1
  obtain ⟨n, rfl⟩ := Nat.exists_eq_add_of_le h
  obtain ⟨k, rfl⟩ := Nat.exists_eq_add_of_le h'
  rw [show head + n - head = n by omega, show head + n + k - (head + n) = k by omega,
    show head + n + k - head = n + k by omega]
  exact List.range'_append_1

theorem copy_of_lt {start i : ℕ} (cells : List α) (h : i < start) :
    copy base start cells i = base i :=
  if_pos h

theorem copy_of_ge {start i : ℕ} {cells : List α} (h : start + cells.length ≤ i) :
    copy base start cells i = base i := by
  rw [copy, if_neg (by omega), List.getElem?_eq_none (by omega), Option.getD_none]

theorem copy_add {start i : ℕ} {cells : List α} (h : i < cells.length) :
    copy base start cells (start + i) = cells[i] := by
  simp [copy, h]

/-- Storing behind a slice leaves it as it is. -/
theorem slice_copy_of_le {start : ℕ} (cells : List α) (h : tail ≤ start) :
    slice (copy base start cells) head tail = slice base head tail := by
  refine List.map_congr_left fun i hi => copy_of_lt cells ?_
  have hlt := List.mem_range'_1.mp hi
  omega

/-- Storing right behind a slice appends to it. -/
theorem slice_copy (cells : List α) (h : head ≤ tail) :
    slice (copy base tail cells) head (tail + cells.length) = slice base head tail ++ cells := by
  apply List.ext_getElem (by simp; omega)
  intro i hi _
  simp only [slice_length] at hi
  simp only [slice, List.getElem_map, List.getElem_range', Nat.one_mul]
  rcases Nat.lt_or_ge i (tail - head) with hlt | hge
  · rw [List.getElem_append_left (by simpa using hlt)]
    simp [copy_of_lt cells (show head + i < tail by omega)]
  · have hpos : head + i = tail + (i - (tail - head)) := by omega
    rw [List.getElem_append_right (by simpa using hge), hpos, copy_add (by omega)]
    simp

/-- The beginning of what was stored at the start of a block. -/
theorem slice_copy_append (cells more : List α) :
    slice (copy base 0 (cells ++ more)) 0 cells.length = cells := by
  have hcopy : slice (copy base 0 (cells ++ more)) 0 (0 + (cells ++ more).length) =
      slice base 0 0 ++ (cells ++ more) := slice_copy _ le_rfl
  have htake : slice (copy base 0 (cells ++ more)) 0 (0 + cells.length) =
      (slice (copy base 0 (cells ++ more)) 0 (0 + (cells ++ more).length)).take cells.length :=
    slice_take (by rw [List.length_append]; omega)
  rw [hcopy, slice_self, List.nil_append, List.take_left, Nat.zero_add] at htake
  exact htake

theorem copy_append_cons (cells more : List α) (cell : α) :
    copy base 0 (cells ++ cell :: more) cells.length = cell := by
  simp [copy]

/-! ## Blocks that are written -/

/-- A block of memory, and the positions that were written. -/
structure Block (α : Type*) where
  cells : ℕ → α
  written : List ℕ

def Block.store (m : Block α) (start : ℕ) (cells : List α) : Block α where
  cells := copy m.cells start cells
  written := m.written ++ List.range' start cells.length

/-- From `m₀` to `m`, `cells` were written from position 0 on, one after the other. -/
structure Block.Holds (m₀ m : Block α) (cells : List α) : Prop where
  slice : slice m.cells 0 cells.length = cells
  written : m.written = m₀.written ++ List.range cells.length

variable {m₀ m : Block α} {cells : List α}

theorem Block.Holds.refl (m : Block α) : m.Holds m [] :=
  ⟨slice_self, (List.append_nil _).symm⟩

theorem Block.Holds.store {start : ℕ} (h : m₀.Holds m cells) (hstart : start = cells.length)
    (more : List α) : m₀.Holds (m.store start more) (cells ++ more) := by
  subst hstart
  constructor
  · rw [List.length_append, Block.store, slice_copy more (Nat.zero_le _), h.slice]
  · rw [Block.store, h.written, List.length_append, List.append_assoc, List.range_eq_range',
      List.range_eq_range', ← List.range'_append_1, Nat.zero_add]

/-- A loop that stores one cell in each pass. -/
theorem Block.Holds.foldl {start : ℕ} (h : m₀.Holds m cells) (hstart : start = cells.length)
    (f : ℕ → α) (n : ℕ) :
    m₀.Holds ((List.range n).foldl (fun m i => m.store (start + i) [f i]) m)
      (cells ++ (List.range n).map f) := by
  induction n with
  | zero => simpa using h
  | succ n ih =>
      have hnext : start + n = (cells ++ (List.range n).map f).length := by simp [hstart]
      rw [List.range_succ, List.foldl_append, List.map_append, ← List.append_assoc]
      exact ih.store hnext [f n]

/-- What is held can be read. -/
theorem Block.Holds.cells_eq (h : m₀.Holds m cells) {i : ℕ} (hi : i < cells.length) :
    m.cells i = cells[i] := by
  have hlength : i < (Memory.slice m.cells 0 cells.length).length := by simpa using hi
  have hget : (Memory.slice m.cells 0 cells.length)[i] = m.cells i := by
    simp [Memory.slice]
  rw [← hget]
  congr 1
  exact h.slice

end LibConn.Memory
