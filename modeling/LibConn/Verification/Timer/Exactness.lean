import LibConn.Model.TimerSystem
import LibConn.Verification.Heap.Elements
import Mathlib.Data.Finset.Card
import Mathlib.Data.List.Nodup

/-! # The timer set and its counter

The heap, the counter and the armed timers agree as long as `add_timer` finds room,
`del_timer` and `reset_timer` are used on the timer at the top, and no timer is removed by
`heap_remove`, which leaves the counter alone. -/

namespace LibConn

open LibConn.Run

/-- The counter is the size of the heap and the number of armed timers, which are all in
the heap. -/
structure Counts (timers : Heap ℕ) (timers_num : ℕ) (armed : Finset ℕ) : Prop where
  num_eq : timers_num = timers.size
  size_eq : timers.size = armed.card
  in_heap : ∀ t ∈ armed, t ∈ timers.array

/-- The timer set of the loop and its counter are exact. -/
def Exact (s : TimerSystem) : Prop :=
  Counts s.loop.timers s.loop.timers_num s.armed

/-- The timer is in memory and has not fired for the last time. -/
def Timer.Live (timer : Timer) : Prop :=
  timer.allocated = true ∧ timer.destory = false

/-- What guarded operations keep of the heap, the counter and the timers in memory. -/
structure Keeps (timers : Heap ℕ) (timers_num : ℕ) (timer : ℕ → Timer) (armed : Finset ℕ) :
    Prop where
  num_eq : timers_num = timers.size
  nodup : timers.array.Nodup
  armed_iff : ∀ t, t ∈ armed ↔ t ∈ timers.array
  live : ∀ t ∈ timers.array, (timer t).Live
  size_le : timers.size ≤ timers.capacity
  capacity_eq : timers.capacity = 1000

def TimerSystem.Keeps (s : TimerSystem) : Prop :=
  LibConn.Keeps s.loop.timers s.loop.timers_num s.loop.timer s.armed

/-! ## The counter -/

theorem u32_succ {n : ℕ} (h : n ≤ 1000) : u32 (n + 1) = n + 1 := by
  rw [u32]
  omega

theorem u32_pred {n : ℕ} (h : n ≤ 1000) (hpos : 0 < n) : u32 (n - 1) = n - 1 := by
  rw [u32]
  omega

/-! ## The heap operations -/

section Heap

variable {compare compare' : ℕ → ℕ → Bool} {timers : Heap ℕ} {timers_num : ℕ}
  {timer timer' : ℕ → Timer} {armed : Finset ℕ} {t : ℕ}

theorem heapTop_eq_some_iff : heapTop timers = some t ↔ ∃ rest, timers.array = t :: rest := by
  rw [heapTop, List.head?_eq_some_iff]

theorem Keeps.small (h : Keeps timers timers_num timer armed) : timers_num ≤ 1000 := by
  rw [h.num_eq, ← h.capacity_eq]
  exact h.size_le

theorem Keeps.card (h : Keeps timers timers_num timer armed) : timers.size = armed.card := by
  have harmed : armed = timers.array.toFinset := by
    ext t
    rw [h.armed_iff, List.mem_toFinset]
  rw [harmed, List.toFinset_card_of_nodup h.nodup]
  rfl

theorem Keeps.timers_mono (h : Keeps timers timers_num timer armed)
    (hlive : ∀ u ∈ timers.array, (timer' u).Live) : Keeps timers timers_num timer' armed :=
  ⟨h.num_eq, h.nodup, h.armed_iff, hlive, h.size_le, h.capacity_eq⟩

theorem Keeps.insert (h : Keeps timers timers_num timer armed) (hfresh : t ∉ timers.array)
    (hroom : timers.size < timers.capacity)
    (hlive : ∀ u, u = t ∨ u ∈ timers.array → (timer' u).Live) :
    Keeps (heapInsert compare timers t) (u32 (timers_num + 1)) timer' (insert t armed) := by
  have hperm := heapInsert_perm compare t hroom
  have hmem : ∀ u, u ∈ (heapInsert compare timers t).array ↔ u = t ∨ u ∈ timers.array := by
    intro u
    rw [hperm.mem_iff, List.mem_cons]
  have hsize : (heapInsert compare timers t).size = timers.size + 1 := hperm.length_eq
  refine ⟨?_, hperm.nodup_iff.mpr (List.nodup_cons.mpr ⟨hfresh, h.nodup⟩), ?_, ?_, ?_, ?_⟩
  · rw [u32_succ h.small, hsize, h.num_eq]
  · intro u
    rw [hmem, Finset.mem_insert, h.armed_iff]
  · exact fun u hu => hlive u ((hmem u).mp hu)
  · rw [hsize, heapInsert_capacity]
    exact hroom
  · rw [heapInsert_capacity, h.capacity_eq]

theorem Keeps.pop (h : Keeps timers timers_num timer armed) (htop : heapTop timers = some t)
    (hlive : ∀ u ∈ timers.array, u ≠ t → (timer' u).Live) :
    Keeps (heapPop compare timers) (u32 (timers_num - 1)) timer' (armed.erase t) := by
  obtain ⟨rest, harray⟩ := heapTop_eq_some_iff.mp htop
  have hperm := heapPop_perm compare timers
  rw [harray, List.tail_cons] at hperm
  have hnodup := h.nodup
  rw [harray, List.nodup_cons] at hnodup
  have hsize : timers.size = rest.length + 1 := by simp [Heap.size, harray]
  have hsize' : (heapPop compare timers).size = rest.length := hperm.length_eq
  have hnum := h.num_eq
  have hsmall := h.small
  refine ⟨?_, hperm.nodup_iff.mpr hnodup.2, ?_, ?_, ?_, ?_⟩
  · rw [u32_pred hsmall (by omega), hsize']
    omega
  · intro u
    rw [hperm.mem_iff, Finset.mem_erase, h.armed_iff, harray, List.mem_cons]
    constructor
    · rintro ⟨hne, rfl | hu⟩
      · exact absurd rfl hne
      · exact hu
    · rintro hu
      exact ⟨fun heq => hnodup.1 (heq ▸ hu), Or.inr hu⟩
  · intro u hu
    rw [hperm.mem_iff] at hu
    exact hlive u (by simp [harray, hu]) fun heq => hnodup.1 (heq ▸ hu)
  · rw [heapPop_capacity, hsize']
    have hle := h.size_le
    omega
  · rw [heapPop_capacity, h.capacity_eq]

theorem rotate_perm (compare compare' : ℕ → ℕ → Bool) (t : ℕ) {rest : List ℕ} {u : ℕ}
    (harray : timers.array = u :: rest) (hle : timers.size ≤ timers.capacity) :
    (heapInsert compare' (heapPop compare timers) t).array.Perm (t :: rest) := by
  have hpop := heapPop_perm compare timers
  rw [harray, List.tail_cons] at hpop
  have hroom : (heapPop compare timers).size < (heapPop compare timers).capacity := by
    rw [heapPop_capacity, Heap.size, hpop.length_eq]
    have hsize : timers.size = rest.length + 1 := by simp [Heap.size, harray]
    omega
  exact (heapInsert_perm compare' t hroom).trans (hpop.cons t)

theorem Keeps.rotate (h : Keeps timers timers_num timer armed) (htop : heapTop timers = some t)
    (hlive : ∀ u ∈ timers.array, (timer' u).Live) :
    Keeps (heapInsert compare' (heapPop compare timers) t) timers_num timer' armed := by
  obtain ⟨rest, harray⟩ := heapTop_eq_some_iff.mp htop
  have hperm := rotate_perm compare compare' t harray h.size_le
  rw [← harray] at hperm
  have hsize : (heapInsert compare' (heapPop compare timers) t).size = timers.size :=
    hperm.length_eq
  refine ⟨?_, hperm.nodup_iff.mpr h.nodup, ?_, ?_, ?_, ?_⟩
  · rw [hsize, h.num_eq]
  · intro u
    rw [h.armed_iff, hperm.mem_iff]
  · exact fun u hu => hlive u (hperm.mem_iff.mp hu)
  · rw [hsize, heapInsert_capacity, heapPop_capacity]
    exact h.size_le
  · rw [heapInsert_capacity, heapPop_capacity, h.capacity_eq]

/-- Removing a timer that is not in the heap changes nothing. -/
theorem Keeps.remove (h : Keeps timers timers_num timer armed) (habsent : t ∉ timers.array) :
    Keeps (heapRemove compare timers t) timers_num timer (armed.erase t) := by
  have hperm := heapRemove_perm compare timers t
  rw [List.erase_of_not_mem habsent] at hperm
  have herase : armed.erase t = armed :=
    Finset.erase_eq_of_notMem fun hmem => habsent ((h.armed_iff t).mp hmem)
  have hsize : (heapRemove compare timers t).size = timers.size := hperm.length_eq
  refine ⟨?_, hperm.nodup_iff.mpr h.nodup, ?_, ?_, ?_, ?_⟩
  · rw [hsize, h.num_eq]
  · intro u
    rw [herase, h.armed_iff, hperm.mem_iff]
  · exact fun u hu => h.live u (hperm.mem_iff.mp hu)
  · rw [hsize, heapRemove_capacity]
    exact h.size_le
  · rw [heapRemove_capacity, h.capacity_eq]

theorem Keeps.counts (h : Keeps timers timers_num timer armed) : Counts timers timers_num armed :=
  ⟨h.num_eq, h.card, fun t ht => (h.armed_iff t).mp ht⟩

/-! ## What goes wrong -/

theorem Keeps.not_counts_full (h : Keeps timers timers_num timer armed)
    (hfull : ¬ timers.size < timers.capacity) (armed' : Finset ℕ) :
    ¬ Counts (heapInsert compare timers t) (u32 (timers_num + 1)) armed' := by
  intro hcounts
  have hnum := hcounts.num_eq
  have hle := h.size_le
  rw [heapInsert_full t (by omega), u32_succ h.small, h.num_eq] at hnum
  omega

theorem Keeps.not_counts_pop (h : Keeps timers timers_num timer armed) (ht : t ∈ armed)
    (htop : heapTop timers ≠ some t) (n : ℕ) :
    ¬ Counts (heapPop compare timers) n (armed.erase t) := by
  intro hcounts
  have hperm := heapPop_perm compare timers
  have hmem := (h.armed_iff t).mp ht
  cases harray : timers.array with
  | nil => simp [harray] at hmem
  | cons u rest =>
      have hne : u ≠ t := by
        rintro rfl
        exact htop (heapTop_eq_some_iff.mpr ⟨rest, harray⟩)
      have hu : u ∈ armed.erase t :=
        Finset.mem_erase.mpr ⟨hne, (h.armed_iff u).mpr (by simp [harray])⟩
      have hin := hcounts.in_heap u hu
      have hnodup := h.nodup
      rw [harray, List.nodup_cons] at hnodup
      rw [hperm.mem_iff, harray, List.tail_cons] at hin
      exact hnodup.1 hin

theorem Keeps.not_counts_rotate (h : Keeps timers timers_num timer armed)
    (htop : heapTop timers ≠ some t) :
    ¬ Counts (heapInsert compare' (heapPop compare timers) t) timers_num
        (Insert.insert t armed) := by
  intro hcounts
  cases harray : timers.array with
  | nil =>
      have hzero : timers.size = 0 := by simp [Heap.size, harray]
      have hpop : heapPop compare timers = timers := by simp [heapPop, hzero]
      have hroom : timers.size < timers.capacity := by
        rw [h.capacity_eq]
        omega
      have hsize := (heapInsert_perm compare' t hroom).length_eq
      have hnum := hcounts.num_eq
      rw [hpop, Heap.size, hsize, h.num_eq, hzero, harray] at hnum
      cases hnum
  | cons u rest =>
      have hne : u ≠ t := by
        rintro rfl
        exact htop (heapTop_eq_some_iff.mpr ⟨rest, harray⟩)
      have hperm := rotate_perm compare compare' t harray h.size_le
      have hu : u ∈ Insert.insert t armed :=
        Finset.mem_insert_of_mem ((h.armed_iff u).mpr (by simp [harray]))
      have hin := hcounts.in_heap u hu
      have hnodup := h.nodup
      rw [harray, List.nodup_cons] at hnodup
      rw [hperm.mem_iff, List.mem_cons] at hin
      exact hnodup.1 (hin.resolve_left hne)

theorem Keeps.not_counts_remove (h : Keeps timers timers_num timer armed) (ht : t ∈ timers.array)
    (armed' : Finset ℕ) : ¬ Counts (heapRemove compare timers t) timers_num armed' := by
  intro hcounts
  have hsize := (heapRemove_perm compare timers t).length_eq
  rw [List.length_erase_of_mem ht] at hsize
  have hpos := List.length_pos_of_mem ht
  have hnum := hcounts.num_eq
  rw [h.num_eq, Heap.size, Heap.size, hsize] at hnum
  omega

end Heap

/-! ## Operations on a loop -/

/-- A new timer needs room in the heap. -/
def AddGuard (loop : Loop) : Prop :=
  loop.timers.size < loop.timers.capacity

/-- A timer that has fired for the last time needs room; any other has to be at the top. -/
def ResetGuard (loop : Loop) (t : ℕ) : Prop :=
  if (loop.timer t).destory = true then loop.timers.size < loop.timers.capacity
  else heapTop loop.timers = some t

/-- The timer that is removed is not in the heap any more. -/
def RemoveGuard (loop : Loop) (timer : Option ℕ) : Prop :=
  ∀ t ∈ timer, t ∉ loop.timers.array

def Loop.Keeps (loop : Loop) (armed : Finset ℕ) : Prop :=
  LibConn.Keeps loop.timers loop.timers_num loop.timer armed

def Loop.Counts (loop : Loop) (armed : Finset ℕ) : Prop :=
  LibConn.Counts loop.timers loop.timers_num armed

section Loop

variable {loop loop' : Loop} {armed : Finset ℕ} {t : ℕ}

theorem live_update {timer : ℕ → Timer} {new : Timer} {array : List ℕ}
    (hlive : ∀ u ∈ array, (timer u).Live) (hnew : new.Live) (u : ℕ) (hu : u = t ∨ u ∈ array) :
    (Function.update timer t new u).Live := by
  rcases eq_or_ne u t with rfl | hne
  · simpa using hnew
  · rw [Function.update_of_ne hne]
    exact hlive u (hu.resolve_left hne)

theorem addTimer_some {timeout : ℤ} {cb : Option TimerCb} {repeats now : ℕ} {mem : Option ℕ}
    (h : addTimer loop timeout cb repeats now mem = (some t, loop')) :
    timeout ≠ 0 ∧ mem = some t := by
  unfold addTimer at h
  by_cases htimeout : timeout = 0
  · simp [htimeout] at h
  · rw [if_neg htimeout] at h
    cases mem with
    | none => simp at h
    | some u => exact ⟨htimeout, (Prod.mk.inj h).1⟩

theorem Loop.Keeps.addTimer {timeout : ℤ} {cb : Option TimerCb} {repeats now : ℕ}
    {mem timer : Option ℕ} (h : loop.Keeps armed) (hmem : loop.memFree mem)
    (hadd : LibConn.addTimer loop timeout cb repeats now mem = (timer, loop')) :
    (timeout = 0 ∨ mem = none ∨ AddGuard loop → loop'.Keeps (arm armed timer)) ∧
      (loop'.Counts (arm armed timer) → timeout = 0 ∨ mem = none ∨ AddGuard loop) := by
  unfold LibConn.addTimer at hadd
  by_cases htimeout : timeout = 0
  · rw [if_pos htimeout] at hadd
    obtain ⟨rfl, rfl⟩ := Prod.mk.inj hadd
    exact ⟨fun _ => h, fun _ => Or.inl htimeout⟩
  rw [if_neg htimeout] at hadd
  cases mem with
  | none =>
      obtain ⟨rfl, rfl⟩ := Prod.mk.inj hadd
      exact ⟨fun _ => h, fun _ => Or.inr (Or.inl rfl)⟩
  | some t =>
      obtain ⟨rfl, rfl⟩ := Prod.mk.inj hadd
      refine ⟨fun hguard => ?_, fun hcounts => Or.inr (Or.inr ?_)⟩
      · have hroom : AddGuard loop := by simpa [htimeout] using hguard
        have hfresh : t ∉ loop.timers.array := by
          intro ht
          have hfree := hmem t rfl
          rw [(h.live t ht).1] at hfree
          cases hfree
        exact LibConn.Keeps.insert h hfresh hroom (live_update h.live ⟨rfl, rfl⟩)
      · by_contra hfull
        exact LibConn.Keeps.not_counts_full h hfull _ hcounts

/-- What `reset_timer` does to the heap, the counter and the timers in memory. -/
structure ResetSpec (loop : Loop) (t : ℕ) (loop' : Loop) : Prop where
  armed : (loop.timer t).destory = false → ∃ compare compare',
    loop'.timers = heapInsert compare' (heapPop compare loop.timers) t ∧
      loop'.timers_num = loop.timers_num
  fired : (loop.timer t).destory = true → ∃ compare,
    loop'.timers = heapInsert compare loop.timers t ∧
      loop'.timers_num = u32 (loop.timers_num + 1)
  live : (loop'.timer t).Live
  others : ∀ u, u ≠ t → loop'.timer u = loop.timer u

theorem resetTimer_spec {timeout : ℤ} (h : resetTimer loop t timeout = some loop') :
    ResetSpec loop t loop' := by
  rw [resetTimer, Option.ite_none_right_eq_some] at h
  obtain ⟨⟨halloc, -⟩, h⟩ := h
  obtain rfl := Option.some.inj h
  cases hdestory : (loop.timer t).destory with
  | false =>
      refine ⟨fun _ => ⟨_, _, rfl, rfl⟩, fun h => absurd (hdestory.symm.trans h) (by decide), ?_,
        fun u hu => ?_⟩
      · simp [eventReset, Loop.setTimer, Loop.insertTimer, Loop.popTimer, Timer.Live, halloc]
      · simp [eventReset, Loop.setTimer, Loop.insertTimer, Loop.popTimer, hu]
  | true =>
      refine ⟨fun h => absurd (hdestory.symm.trans h) (by decide), fun _ => ⟨_, rfl, rfl⟩, ?_,
        fun u hu => ?_⟩
      · simp [eventReset, Loop.setTimer, Loop.insertTimer, Timer.Live, halloc]
      · simp [eventReset, Loop.setTimer, Loop.insertTimer, hu]

theorem Loop.Keeps.resetTimer {timeout : ℤ} (h : loop.Keeps armed)
    (hreset : LibConn.resetTimer loop t timeout = some loop') :
    (ResetGuard loop t → loop'.Keeps (insert t armed)) ∧
      (loop'.Counts (insert t armed) → ResetGuard loop t) := by
  have hspec := resetTimer_spec hreset
  have hlive : ∀ u, u = t ∨ u ∈ loop.timers.array → (loop'.timer u).Live := by
    intro u hu
    rcases eq_or_ne u t with rfl | hne
    · exact hspec.live
    · rw [hspec.others u hne]
      exact h.live u (hu.resolve_left hne)
  unfold ResetGuard Loop.Keeps Loop.Counts
  cases hdestory : (loop.timer t).destory with
  | false =>
      obtain ⟨compare, compare', htimers, hnum⟩ := hspec.armed hdestory
      rw [if_neg (by simp), htimers, hnum]
      refine ⟨fun htop => ?_, fun hcounts => ?_⟩
      · have hin : t ∈ armed := (h.armed_iff t).mpr (by
          obtain ⟨rest, harray⟩ := heapTop_eq_some_iff.mp htop
          simp [harray])
        rw [Finset.insert_eq_of_mem hin]
        exact LibConn.Keeps.rotate h htop fun u hu => hlive u (Or.inr hu)
      · by_contra htop
        exact LibConn.Keeps.not_counts_rotate h htop hcounts
  | true =>
      obtain ⟨compare, htimers, hnum⟩ := hspec.fired hdestory
      rw [if_pos rfl, htimers, hnum]
      refine ⟨fun hroom => ?_, fun hcounts => ?_⟩
      · have hfresh : t ∉ loop.timers.array := by
          intro ht
          rw [(h.live t ht).2] at hdestory
          cases hdestory
        exact LibConn.Keeps.insert h hfresh hroom hlive
      · by_contra hfull
        exact LibConn.Keeps.not_counts_full h hfull _ hcounts

theorem Loop.Keeps.removeTimer (h : loop.Keeps armed) :
    (t ∉ loop.timers.array → (loop.removeTimer t).Keeps (armed.erase t)) ∧
      ((loop.removeTimer t).Counts (armed.erase t) → t ∉ loop.timers.array) := by
  refine ⟨fun habsent => LibConn.Keeps.remove h habsent, fun hcounts ht => ?_⟩
  exact LibConn.Keeps.not_counts_remove h ht _ hcounts

theorem Loop.Keeps.delTimer (h : loop.Keeps armed) (ht : t ∈ armed) :
    (heapTop loop.timers = some t → (LibConn.delTimer loop t).Keeps (armed.erase t)) ∧
      ((LibConn.delTimer loop t).Counts (armed.erase t) → heapTop loop.timers = some t) := by
  constructor
  · intro htop
    exact LibConn.Keeps.pop h htop fun u hu _ => h.live u hu
  · intro hcounts
    by_contra htop
    exact LibConn.Keeps.not_counts_pop h ht htop _ hcounts

/-- Only timer `t` is written; the heap and the counter stay. -/
structure Writes (loop : Loop) (t : ℕ) (loop' : Loop) : Prop where
  timers_eq : loop'.timers = loop.timers
  num_eq : loop'.timers_num = loop.timers_num
  others : ∀ u, u ≠ t → loop'.timer u = loop.timer u

theorem setTimer_writes (new : Timer) : Writes loop t (loop.setTimer t new) :=
  ⟨rfl, rfl, fun _ hu => Function.update_of_ne hu _ _⟩

theorem countDown_writes : Writes loop t (countDown loop t) := by
  rw [countDown]
  split_ifs
  · exact setTimer_writes _
  · exact ⟨rfl, rfl, fun _ _ => rfl⟩

/-- `timer->repeat` after the count. -/
def counted (repeats : ℕ) : ℕ :=
  if repeats ≠ uint32Max then u32 (repeats - 1) else repeats

theorem countDown_eq (loop : Loop) (t : ℕ) : countDown loop t =
    loop.setTimer t { loop.timer t with repeats := counted (loop.timer t).repeats } := by
  rw [countDown, counted]
  split_ifs
  · rfl
  · simp [Loop.setTimer]

theorem counted_one : counted 1 = 0 := by decide

/-- `repeat` has run down; once it has, it is `0` or `UINT32_MAX`. -/
def Timer.Spent (timer : Timer) : Prop :=
  timer.repeats = 0 ∨ timer.repeats = uint32Max

theorem counted_spent {repeats : ℕ} (h : repeats = 0 ∨ repeats = uint32Max) :
    counted repeats = uint32Max := by
  rcases h with rfl | rfl <;> decide

theorem eventPending_writes : Writes loop t (eventPending loop t) := by
  rw [eventPending]
  split_ifs
  · exact ⟨rfl, rfl, fun _ _ => rfl⟩
  · exact ⟨rfl, rfl, fun _ hu => Function.update_of_ne hu _ _⟩

theorem Loop.Keeps.writes (h : loop.Keeps armed) (hwrites : Writes loop t loop')
    (hlive : t ∈ loop.timers.array → (loop'.timer t).Live) : loop'.Keeps armed := by
  rw [Loop.Keeps]
  rw [hwrites.timers_eq, hwrites.num_eq]
  refine h.timers_mono fun u hu => ?_
  rcases eq_or_ne u t with rfl | hne
  · exact hlive hu
  · rw [hwrites.others u hne]
    exact h.live u hu

theorem Loop.Keeps.countDown (h : loop.Keeps armed) : (countDown loop t).Keeps armed := by
  refine h.writes countDown_writes fun ht => ?_
  rw [LibConn.countDown]
  split_ifs
  · simpa [Loop.setTimer, Timer.Live] using h.live t ht
  · exact h.live t ht

theorem Loop.Keeps.mem_of_top (h : loop.Keeps armed) (htop : heapTop loop.timers = some t) :
    t ∈ armed := by
  obtain ⟨rest, harray⟩ := heapTop_eq_some_iff.mp htop
  exact (h.armed_iff t).mpr (by simp [harray])

theorem processTimerTurn_eq_last (h : processTimerTurn loop = .last t loop') :
    heapTop loop.timers = some t ∧ (loop.timer t).next_timeout ≤ loop.cur_ms ∧
      ((LibConn.countDown loop t).timer t).repeats = 0 ∧
      loop' = eventPending ((LibConn.delTimer (LibConn.countDown loop t) t).setTimer t
        { (LibConn.delTimer (LibConn.countDown loop t) t).timer t with destory := true }) t := by
  rw [processTimerTurn] at h
  cases htop : heapTop loop.timers with
  | none => simp [htop] at h
  | some u =>
      simp only [htop] at h
      split_ifs at h with hdue hlast
      obtain ⟨rfl, rfl⟩ := TimerTurn.last.inj h
      exact ⟨rfl, Nat.le_of_not_gt hdue, hlast, rfl⟩

theorem processTimerTurn_eq_again (h : processTimerTurn loop = .again t loop') :
    heapTop loop.timers = some t ∧ (loop.timer t).next_timeout ≤ loop.cur_ms ∧
      ((LibConn.countDown loop t).timer t).repeats ≠ 0 ∧
      loop' = (((LibConn.countDown loop t).setTimer t
        { (LibConn.countDown loop t).timer t with
          next_timeout := u64 ((LibConn.countDown loop t).cur_ms +
            ((LibConn.countDown loop t).timer t).timeout) }).popTimer).insertTimer t := by
  rw [processTimerTurn] at h
  cases htop : heapTop loop.timers with
  | none => simp [htop] at h
  | some u =>
      simp only [htop] at h
      split_ifs at h with hdue hlast
      obtain ⟨rfl, rfl⟩ := TimerTurn.again.inj h
      exact ⟨rfl, Nat.le_of_not_gt hdue, hlast, rfl⟩

theorem Loop.Keeps.last (h : loop.Keeps armed) (hturn : processTimerTurn loop = .last t loop') :
    loop'.Keeps (armed.erase t) := by
  obtain ⟨htop, -, -, rfl⟩ := processTimerTurn_eq_last hturn
  have htop' : heapTop (LibConn.countDown loop t).timers = some t := by
    rw [countDown_writes.timers_eq, htop]
  have hdel := (h.countDown.delTimer (h.mem_of_top htop)).1 htop'
  -- the timer is out of the heap, so what is written to it does not matter
  have hout : t ∉ (LibConn.delTimer (LibConn.countDown loop t) t).timers.array := by
    intro ht
    exact Finset.notMem_erase t armed ((hdel.armed_iff t).mpr ht)
  refine Loop.Keeps.writes ?_ eventPending_writes fun ht => absurd ht hout
  exact hdel.writes (setTimer_writes _) fun ht => absurd ht hout

theorem Loop.Keeps.again (h : loop.Keeps armed) (hturn : processTimerTurn loop = .again t loop') :
    loop'.Keeps armed := by
  obtain ⟨htop, -, -, rfl⟩ := processTimerTurn_eq_again hturn
  have hcount : (LibConn.countDown loop t).Keeps armed := h.countDown
  have htop' : heapTop (LibConn.countDown loop t).timers = some t := by
    rw [countDown_writes.timers_eq, htop]
  refine LibConn.Keeps.rotate hcount htop' fun v hv => ?_
  have hlive := hcount.live t ((hcount.armed_iff t).mp (h.mem_of_top htop))
  refine live_update hcount.live ?_ v (Or.inr hv)
  exact ⟨hlive.1, hlive.2⟩

theorem Loop.Keeps.pendingDone (h : loop.Keeps armed) :
    (LibConn.pendingDone loop t).Keeps armed := by
  have hdone : Writes loop t (LibConn.pendingDone loop t) := by
    unfold LibConn.pendingDone eventDel
    dsimp only
    split_ifs
    · exact ⟨rfl, rfl, fun u hu => by simp [Loop.setTimer, hu]⟩
    · exact setTimer_writes _
  refine h.writes hdone fun ht => ?_
  have hlive := h.live t ht
  simpa [LibConn.pendingDone, Loop.setTimer, Timer.Live, hlive.2] using hlive

end Loop

/-! ## Runs -/

/-- What setting a timeout needs, given the timer that the io has. -/
def SetGuard (loop : Loop) (kind : Timeout) (timeout : ℤ) (timer : Option ℕ) : Prop :=
  if timeout < 0 then kind = .read ∨ kind = .write → RemoveGuard loop timer
  else
    match timer with
    | some t => ResetGuard loop t
    | none => AddGuard loop

/-- What each action needs. -/
def TimerGuard (s : TimerSystem) : TimerAction → Prop
  | .addTimer timeout _ _ _ mem => timeout = 0 ∨ mem = none ∨ AddGuard s.loop
  | .delTimer t => heapTop s.loop.timers = some t
  | .resetTimer t _ => ResetGuard s.loop t
  | .setTimeout kind self timeout _ _ => SetGuard s.loop kind timeout ((s.io self).timer kind)
  | .removeTimeout kind self => RemoveGuard s.loop ((s.io self).timer kind)
  | _ => True

theorem TimerSystem.Keeps.exact {s : TimerSystem} (h : s.Keeps) : Exact s :=
  LibConn.Keeps.counts h

theorem ioSetTimeoutOf_eq (kind : Timeout) : ∃ cb, ioSetTimeoutOf kind =
    ioSetTimeout kind (if kind = .read ∨ kind = .write then ioRemoveTimeout kind else id) cb := by
  cases kind <;> exact ⟨_, rfl⟩

theorem ioRemoveTimeout_step {kind : Timeout} {c : Conn} {armed : Finset ℕ}
    (h : c.loop.Keeps armed) :
    (RemoveGuard c.loop (c.io.timer kind) →
        (ioRemoveTimeout kind c).loop.Keeps (disarm armed (c.io.timer kind))) ∧
      ((ioRemoveTimeout kind c).loop.Counts (disarm armed (c.io.timer kind)) →
        RemoveGuard c.loop (c.io.timer kind)) := by
  rw [ioRemoveTimeout, RemoveGuard]
  cases c.io.timer kind with
  | none => exact ⟨fun _ => h, fun _ t ht => by cases ht⟩
  | some t =>
      obtain ⟨hkeeps, hcounts⟩ := h.removeTimer (t := t)
      refine ⟨fun hguard => hkeeps (hguard t rfl), fun hexact u hu => ?_⟩
      obtain rfl := Option.some.inj hu
      exact hcounts hexact

theorem ioRemoveTimeout_timer (kind : Timeout) (c : Conn) :
    (ioRemoveTimeout kind c).io.timer kind = none := by
  rw [ioRemoveTimeout]
  split
  · assumption
  · simp

/-- Setting a timeout that is not negative arms the timer of the io. -/
theorem ioSetTimeout_step {kind : Timeout} {negative : Conn → Conn} {cb : TimerCb} {self : ℕ}
    {c c' : Conn} {timeout : ℤ} {now : ℕ} {mem : Option ℕ} {armed : Finset ℕ}
    (h : c.loop.Keeps armed) (hnonneg : ¬ timeout < 0) (hmem : c.loop.memFree mem)
    (hset : ioSetTimeout kind negative cb self c timeout now mem = some c') :
    ((match c.io.timer kind with
        | some t => ResetGuard c.loop t
        | none => AddGuard c.loop) → c'.loop.Keeps (arm armed (c'.io.timer kind))) ∧
      (c'.loop.Counts (arm armed (c'.io.timer kind)) →
        match c.io.timer kind with
        | some t => ResetGuard c.loop t
        | none => AddGuard c.loop) := by
  rw [ioSetTimeout, if_neg hnonneg] at hset
  cases htimer : c.io.timer kind with
  | some t =>
      simp only [htimer, Option.map_eq_some_iff] at hset
      obtain ⟨loop, hreset, rfl⟩ := hset
      simpa only [htimer, arm] using h.resetTimer hreset
  | none =>
      simp only [htimer] at hset
      cases hadd : addTimer c.loop timeout (some cb) 1 now mem with
      | mk timer loop =>
          cases timer with
          | none => simp [hadd] at hset
          | some t =>
              simp only [hadd, Option.some.injEq] at hset
              subst hset
              obtain ⟨htimeout, hsome⟩ := addTimer_some hadd
              obtain ⟨hkeeps, hcounts⟩ := h.addTimer hmem hadd
              simp only [Function.update_self]
              refine ⟨fun hroom => ?_, fun hexact => ?_⟩
              · have hadded := hkeeps (Or.inr (Or.inr hroom))
                exact hadded.writes (setTimer_writes _) fun ht => by
                  simpa [Loop.setTimer, Timer.Live] using hadded.live t ht
              · simpa [htimeout, hsome] using hcounts hexact

theorem ioSetTimeoutOf_step {kind : Timeout} {self : ℕ} {c c' : Conn} {timeout : ℤ} {now : ℕ}
    {mem : Option ℕ} {armed : Finset ℕ} (h : c.loop.Keeps armed) (hmem : c.loop.memFree mem)
    (hset : ioSetTimeoutOf kind self c timeout now mem = some c') :
    (SetGuard c.loop kind timeout (c.io.timer kind) →
        c'.loop.Keeps (rearm armed timeout (c.io.timer kind) (c'.io.timer kind))) ∧
      (c'.loop.Counts (rearm armed timeout (c.io.timer kind) (c'.io.timer kind)) →
        SetGuard c.loop kind timeout (c.io.timer kind)) := by
  obtain ⟨cb, hkind⟩ := ioSetTimeoutOf_eq kind
  rw [hkind] at hset
  unfold SetGuard rearm
  by_cases hneg : timeout < 0
  · rw [if_pos hneg, if_pos hneg]
    rw [ioSetTimeout, if_pos hneg] at hset
    by_cases hremoves : kind = .read ∨ kind = .write
    · rw [if_pos hremoves] at hset
      obtain rfl := Option.some.inj hset
      rw [if_pos (ioRemoveTimeout_timer kind c)]
      simpa only [hremoves, forall_const] using ioRemoveTimeout_step h
    · rw [if_neg hremoves] at hset
      obtain rfl := Option.some.inj hset
      have hsame : (if (id c).io.timer kind = none then disarm armed (c.io.timer kind) else armed) =
          armed := by
        split_ifs with hnone
        · rw [show c.io.timer kind = none from hnone]
          rfl
        · rfl
      rw [hsame]
      exact ⟨fun _ => h, fun _ hr => absurd hr hremoves⟩
  · rw [if_neg hneg, if_neg hneg]
    exact ioSetTimeout_step h hneg hmem hset

/-- An action keeps the set exact under its guard, and under no other circumstances. -/
theorem TimerSystem.Keeps.step {s t : TimerSystem} {a : TimerAction} (h : s.Keeps)
    (hstep : s.step a = some t) : (TimerGuard s a → t.Keeps) ∧ (Exact t → TimerGuard s a) := by
  have hloop : s.loop.Keeps s.armed := h
  cases a with
  | tick now =>
      obtain rfl := Option.some.inj hstep
      exact ⟨fun _ => h, fun _ => trivial⟩
  | addTimer timeout cb repeats now mem =>
      simp only [TimerSystem.step, Option.ite_none_right_eq_some] at hstep
      obtain ⟨hmem, hstep⟩ := hstep
      obtain rfl := Option.some.inj hstep
      exact hloop.addTimer hmem rfl
  | delTimer u =>
      simp only [TimerSystem.step, Option.ite_none_right_eq_some] at hstep
      obtain ⟨hu, hstep⟩ := hstep
      obtain rfl := Option.some.inj hstep
      exact hloop.delTimer hu
  | resetTimer u timeout =>
      obtain ⟨loop, hreset, rfl⟩ := Option.map_eq_some_iff.mp hstep
      exact hloop.resetTimer hreset
  | setTimeout kind self timeout now mem =>
      simp only [TimerSystem.step, Option.ite_none_right_eq_some] at hstep
      obtain ⟨hmem, hstep⟩ := hstep
      obtain ⟨c, hset, rfl⟩ := Option.map_eq_some_iff.mp hstep
      exact ioSetTimeoutOf_step (c := ⟨s.io self, s.loop⟩) hloop hmem hset
  | removeTimeout kind self =>
      obtain rfl := Option.some.inj hstep
      exact ioRemoveTimeout_step (c := ⟨s.io self, s.loop⟩) hloop
  | expire =>
      cases hturn : processTimerTurn s.loop with
      | fault => simp [TimerSystem.step, hturn] at hstep
      | stop => simp [TimerSystem.step, hturn] at hstep
      | last u loop =>
          simp only [TimerSystem.step, hturn, Option.some.injEq] at hstep
          subst hstep
          exact ⟨fun _ => hloop.last hturn, fun _ => trivial⟩
      | again u loop =>
          simp only [TimerSystem.step, hturn, Option.some.injEq] at hstep
          subst hstep
          exact ⟨fun _ => hloop.again hturn, fun _ => trivial⟩
  | pendingDone u =>
      obtain rfl := Option.some.inj hstep
      exact ⟨fun _ => hloop.pendingDone, fun _ => trivial⟩
  | pendingEnd =>
      obtain rfl := Option.some.inj hstep
      exact ⟨fun _ => h, fun _ => trivial⟩

/-- A loop from `event_loop_init`, where `malloc` left `timers_num` in the counter. -/
def TimerSystem.start (cur_ms timers_num : ℕ) (timer : ℕ → Timer) (epoll : EpollSet)
    (io : ℕ → Io) : TimerSystem where
  loop := loopInit cur_ms timers_num timer epoll
  io := io
  armed := ∅

theorem keeps_start (cur_ms : ℕ) (timer : ℕ → Timer) (epoll : EpollSet) (io : ℕ → Io) :
    (TimerSystem.start cur_ms 0 timer epoll io).Keeps := by
  refine ⟨rfl, List.nodup_nil, fun t => ?_, fun t ht => ?_, Nat.zero_le _, rfl⟩
  · simp [TimerSystem.start, loopInit, createHeap]
  · simp [TimerSystem.start, loopInit, createHeap] at ht

/-- The timer set is exact in every state of a run exactly when `malloc` left a zero in the
counter and every action of the run meets its guard. -/
theorem exact_along_iff (cur_ms timers_num : ℕ) (timer : ℕ → Timer) (epoll : EpollSet)
    (io : ℕ → Io) (run : List TimerAction) :
    Along TimerSystem.step Exact (.start cur_ms timers_num timer epoll io) run ↔
      timers_num = 0 ∧
        Meets TimerSystem.step TimerGuard (.start cur_ms timers_num timer epoll io) run := by
  have hzero : ∀ run, Along TimerSystem.step Exact (.start cur_ms 0 timer epoll io) run ↔
      Meets TimerSystem.step TimerGuard (.start cur_ms 0 timer epoll io) run := fun run =>
    along_iff_meets (fun _ h => h.exact) (fun _ _ _ h hg hstep => (h.step hstep).1 hg)
      (fun _ _ _ h hstep ht => (h.step hstep).2 ht) run (keeps_start cur_ms timer epoll io)
  constructor
  · intro h
    obtain rfl : timers_num = 0 := h.start.num_eq
    exact ⟨rfl, (hzero run).mp h⟩
  · rintro ⟨rfl, h⟩
    exact (hzero run).mpr h

/-- Removing the read timeout of an io leaves its timer in the count. -/
theorem not_exact_removed_timeout :
    ¬ Along TimerSystem.step Exact
      (.start 0 0 (fun _ => { Timer.zero with allocated := false }) (fun _ => none)
        fun _ => getIo 5 fun _ => 0)
      [.setTimeout .read 0 100 0 (some 7), .removeTimeout .read 0] := by
  intro h
  exact absurd (h.exec rfl).num_eq (by decide)

end LibConn
