import LibConn.Model.Timer
import LibConn.Verification.Heap.Order
import LibConn.Verification.Timer.Exactness

/-! # Deadlines

`del_timer` and `reset_timer` say which timer they are about, and then take the timer at
the top out of the heap. They do what they are for exactly where the two are the same. -/

namespace LibConn

/-- The timers are ordered by their deadlines. -/
instance timersCompare_weakOrder (loop : Loop) :
    IsStrictWeakOrder ℕ (Before (timersCompare loop)) where
  irrefl t h := Nat.lt_irrefl _ (of_decide_eq_true h)
  trans t u v htu huv := decide_eq_true ((of_decide_eq_true htu).trans (of_decide_eq_true huv))
  incomp_trans t u v htu huv := by
    have hle : ∀ {x y : ℕ}, ¬ Before (timersCompare loop) x y →
        (loop.timer y).next_timeout ≤ (loop.timer x).next_timeout :=
      fun h => Nat.not_lt.mp fun hlt => h (decide_eq_true hlt)
    have hvt := (hle huv.1).trans (hle htu.1)
    have htv := (hle htu.2).trans (hle huv.2)
    exact ⟨fun h => hvt.not_gt (of_decide_eq_true h), fun h => htv.not_gt (of_decide_eq_true h)⟩

/-- The heap of the loop holds distinct timers in heap order. -/
structure TimersOrdered (loop : Loop) : Prop where
  nodup : loop.timers.array.Nodup
  size_le : loop.timers.size ≤ loop.timers.capacity
  ordered : HeapOrdered (timersCompare loop) loop.timers.array

/-- The two loops give the timers of `nodes` the same deadlines. -/
def SameDeadlines (loop loop' : Loop) (nodes : List ℕ) : Prop :=
  ∀ t ∈ nodes, (loop'.timer t).next_timeout = (loop.timer t).next_timeout

section Heap

variable {loop loop' : Loop} {t : ℕ} {rest : List ℕ}

theorem SameDeadlines.agreeOn {nodes : List ℕ} (h : SameDeadlines loop loop' nodes) :
    AgreeOn (timersCompare loop) (timersCompare loop') nodes := by
  intro u hu v hv
  simp only [timersCompare, h u hu, h v hv]

theorem timersCompare_congr
    (h : ∀ u, (loop'.timer u).next_timeout = (loop.timer u).next_timeout) :
    timersCompare loop' = timersCompare loop := by
  funext u v
  simp only [timersCompare, h u, h v]

theorem TimersOrdered.notMem_rest (h : TimersOrdered loop)
    (harray : loop.timers.array = t :: rest) : t ∉ rest :=
  (List.nodup_cons.mp (harray ▸ h.nodup)).1

/-- The timer at the top has the first deadline. -/
theorem TimersOrdered.top_le (h : TimersOrdered loop) (harray : loop.timers.array = t :: rest) :
    ∀ u ∈ loop.timers.array, (loop.timer t).next_timeout ≤ (loop.timer u).next_timeout := by
  intro u hu
  have htop : heapTop loop.timers = some t := by
    rw [heapTop, harray]
    rfl
  have hle := (h.ordered.top htop).2 u hu
  rwa [Before, timersCompare, decide_eq_true_eq, Nat.not_lt] at hle

theorem TimersOrdered.pop (h : TimersOrdered loop) (harray : loop.timers.array = t :: rest)
    (htimers : loop'.timers = heapPop (timersCompare loop) loop.timers)
    (hsame : SameDeadlines loop loop' rest) :
    TimersOrdered loop' ∧ loop'.timers.array.Perm rest := by
  have hperm : loop'.timers.array.Perm rest := by
    have hpop := heapPop_perm (timersCompare loop) loop.timers
    rwa [harray, List.tail_cons, ← htimers] at hpop
  refine ⟨⟨?_, ?_, ?_⟩, hperm⟩
  · exact hperm.nodup_iff.mpr (List.nodup_cons.mp (harray ▸ h.nodup)).2
  · have hsize : loop.timers.size = rest.length + 1 := by simp [Heap.size, harray]
    have hsize' : loop'.timers.size = rest.length := hperm.length_eq
    have hle := h.size_le
    rw [hsize', htimers, heapPop_capacity]
    omega
  · have hordered : HeapOrdered (timersCompare loop)
        (heapPop (timersCompare loop) loop.timers).array := heapPop_ordered h.ordered
    rw [← htimers] at hordered
    exact hordered.congr (hsame.agreeOn.perm hperm)

theorem TimersOrdered.rotate (h : TimersOrdered loop) (harray : loop.timers.array = t :: rest)
    (htimers : loop'.timers =
      heapInsert (timersCompare loop') (heapPop (timersCompare loop) loop.timers) t)
    (hsame : SameDeadlines loop loop' rest) :
    TimersOrdered loop' ∧ loop'.timers.array.Perm (t :: rest) := by
  have hperm : loop'.timers.array.Perm (t :: rest) := by
    rw [htimers]
    exact rotate_perm _ _ t harray h.size_le
  have hpopped : TimersOrdered { loop' with timers := heapPop (timersCompare loop) loop.timers } :=
    And.left (h.pop harray rfl hsame)
  refine ⟨⟨?_, ?_, ?_⟩, hperm⟩
  · exact hperm.nodup_iff.mpr (harray ▸ h.nodup)
  · have hsize : loop'.timers.size = loop.timers.size := by
      rw [Heap.size, Heap.size, hperm.length_eq, harray]
    rw [hsize, htimers, heapInsert_capacity, heapPop_capacity]
    exact h.size_le
  · rw [htimers]
    exact heapInsert_ordered t hpopped.ordered

/-- A timer comes into the heap, unless the heap is full. -/
theorem TimersOrdered.insert (h : TimersOrdered loop) (hfresh : t ∉ loop.timers.array)
    (htimers : loop'.timers = heapInsert (timersCompare loop') loop.timers t)
    (hsame : SameDeadlines loop loop' loop.timers.array) :
    TimersOrdered loop' ∧
      (∀ u ∈ loop'.timers.array, u = t ∨ u ∈ loop.timers.array) ∧
      (loop.timers.size < loop.timers.capacity →
        loop'.timers.array.Perm (t :: loop.timers.array)) := by
  have hordered : HeapOrdered (timersCompare loop') loop'.timers.array := by
    rw [htimers]
    exact heapInsert_ordered t (h.ordered.congr hsame.agreeOn)
  rcases h.size_le.lt_or_eq with hroom | hfull
  · have hperm : loop'.timers.array.Perm (t :: loop.timers.array) := by
      rw [htimers]
      exact heapInsert_perm _ t hroom
    refine ⟨⟨?_, ?_, hordered⟩, ?_, fun _ => hperm⟩
    · exact hperm.nodup_iff.mpr (List.nodup_cons.mpr ⟨hfresh, h.nodup⟩)
    · have hsize : loop'.timers.size = loop.timers.size + 1 := hperm.length_eq
      rw [hsize, htimers, heapInsert_capacity]
      exact hroom
    · intro u hu
      exact List.mem_cons.mp (hperm.mem_iff.mp hu)
  · have hkept : loop'.timers = loop.timers := htimers.trans (heapInsert_full t hfull)
    refine ⟨⟨?_, ?_, hordered⟩, ?_, fun hroom => absurd hfull hroom.ne⟩
    · rw [hkept]
      exact h.nodup
    · rw [hkept]
      exact h.size_le
    · intro u hu
      exact Or.inr (hkept ▸ hu)

theorem TimersOrdered.remove (h : TimersOrdered loop) (t : ℕ) :
    TimersOrdered (loop.removeTimer t) ∧
      (loop.removeTimer t).timers.array.Perm (loop.timers.array.erase t) := by
  have hperm : (loop.removeTimer t).timers.array.Perm (loop.timers.array.erase t) :=
    heapRemove_perm _ loop.timers t
  have hordered : HeapOrdered (timersCompare loop) (loop.removeTimer t).timers.array :=
    heapRemove_ordered t h.ordered
  refine ⟨⟨hperm.nodup_iff.mpr (h.nodup.erase t), ?_, hordered⟩, hperm⟩
  have hle := List.length_erase_le (a := t) (l := loop.timers.array)
  have hsize : (loop.removeTimer t).timers.size = (loop.timers.array.erase t).length :=
    hperm.length_eq
  rw [hsize, Loop.removeTimer, heapRemove_capacity]
  exact hle.trans h.size_le

end Heap

/-! ## Cancelling and arming again -/

/-- `t` is cancelled, and the other timers are left alone. -/
structure Cancels (loop : Loop) (t : ℕ) (loop' : Loop) : Prop where
  timers : loop'.timers.array.Perm (loop.timers.array.erase t)
  others : SameDeadlines loop loop' loop'.timers.array
  ordered : HeapOrdered (timersCompare loop') loop'.timers.array

/-- `t` is armed for `timeout` from now on, and the other timers are left alone. -/
structure Rearms (loop : Loop) (t : ℕ) (timeout : ℤ) (loop' : Loop) : Prop where
  timers : loop'.timers.array.Perm loop.timers.array
  deadline : (loop'.timer t).next_timeout = u64 (loop.cur_ms + timeout)
  others : SameDeadlines loop loop' (loop.timers.array.erase t)
  ordered : HeapOrdered (timersCompare loop') loop'.timers.array

section Frame

variable {loop loop' : Loop} {t : ℕ}

theorem cancels_delTimer_iff (h : TimersOrdered loop) (ht : t ∈ loop.timers.array) :
    Cancels loop t (delTimer loop t) ↔ heapTop loop.timers = some t := by
  obtain ⟨top, rest, harray⟩ := List.exists_cons_of_ne_nil (List.ne_nil_of_mem ht)
  have hpopped : TimersOrdered (delTimer loop t) ∧ (delTimer loop t).timers.array.Perm rest :=
    h.pop harray rfl fun _ _ => rfl
  constructor
  · intro hcancels
    have hperm := hpopped.2.symm.trans hcancels.timers
    by_contra hne
    have htop : top ≠ t := by
      rintro rfl
      exact hne (heapTop_eq_some_iff.mpr ⟨rest, harray⟩)
    -- the old top is still to be there, but it is what was taken out
    have hmem : top ∈ loop.timers.array.erase t :=
      (List.mem_erase_of_ne htop).mpr (by simp [harray])
    exact h.notMem_rest harray (hperm.mem_iff.mpr hmem)
  · intro htop
    obtain ⟨rest', harray'⟩ := heapTop_eq_some_iff.mp htop
    obtain ⟨rfl, rfl⟩ := List.cons.inj (harray.symm.trans harray')
    refine ⟨?_, fun _ _ => rfl, hpopped.1.ordered⟩
    rw [harray, List.erase_cons_head]
    exact hpopped.2

/-- What `reset_timer` makes of a loop where the timer is armed. -/
def rearmed (loop : Loop) (t : ℕ) (timeout : ℤ) : Loop :=
  eventReset ((loop.popTimer.setTimer t
    { loop.timer t with next_timeout := u64 (loop.cur_ms + timeout) }).insertTimer t) t

theorem resetTimer_armed {timeout : ℤ} (hlive : (loop.timer t).Live) :
    resetTimer loop t timeout = some loop' ↔
      (loop.timer t).privdata ≠ none ∧ rearmed loop t timeout = loop' := by
  rw [resetTimer, Option.ite_none_right_eq_some, Option.some_inj, if_pos hlive.2,
    and_iff_right hlive.1]
  exact Iff.rfl

theorem rearmed_deadline (loop : Loop) (t : ℕ) (timeout : ℤ) :
    ((rearmed loop t timeout).timer t).next_timeout = u64 (loop.cur_ms + timeout) := by
  simp [rearmed, eventReset, Loop.setTimer, Loop.insertTimer]

theorem rearmed_others (loop : Loop) (timeout : ℤ) (u : ℕ) (hu : u ≠ t) :
    ((rearmed loop t timeout).timer u).next_timeout = (loop.timer u).next_timeout := by
  simp [rearmed, eventReset, Loop.setTimer, Loop.insertTimer, Loop.popTimer, hu]

theorem rearmed_timers (loop : Loop) (t : ℕ) (timeout : ℤ) :
    (rearmed loop t timeout).timers = heapInsert (timersCompare (rearmed loop t timeout))
      (heapPop (timersCompare loop) loop.timers) t := by
  -- `event_reset` does not touch the deadlines that `heap_insert` compares
  have hcompare : timersCompare (rearmed loop t timeout) = timersCompare
      (loop.popTimer.setTimer t
        { loop.timer t with next_timeout := u64 (loop.cur_ms + timeout) }) := by
    apply timersCompare_congr
    intro u
    rcases eq_or_ne u t with rfl | hu
    · rw [rearmed_deadline]
      simp [Loop.setTimer]
    · rw [rearmed_others loop timeout u hu]
      simp [Loop.setTimer, Loop.popTimer, hu]
  rw [hcompare]
  rfl

theorem rearms_resetTimer_iff (h : TimersOrdered loop) (ht : t ∈ loop.timers.array)
    (hlive : (loop.timer t).Live) (timeout : ℤ) :
    (∃ loop', resetTimer loop t timeout = some loop' ∧ Rearms loop t timeout loop') ↔
      heapTop loop.timers = some t ∧ (loop.timer t).privdata ≠ none := by
  obtain ⟨top, rest, harray⟩ := List.exists_cons_of_ne_nil (List.ne_nil_of_mem ht)
  have hdeadline := rearmed_deadline loop t timeout
  have hothers := rearmed_others loop (t := t) timeout
  have htimers := rearmed_timers loop t timeout
  simp only [resetTimer_armed hlive]
  constructor
  · rintro ⟨loop'', ⟨hio, rfl⟩, hrearms⟩
    refine ⟨?_, hio⟩
    have hperm := hrearms.timers
    rw [htimers] at hperm
    have hperm' := (rotate_perm _ _ t harray h.size_le).symm.trans hperm
    rw [harray] at hperm'
    have hmem := hperm'.mem_iff.mpr (List.mem_cons_self (a := top))
    rcases List.mem_cons.mp hmem with rfl | hmem
    · exact heapTop_eq_some_iff.mpr ⟨rest, harray⟩
    · exact absurd hmem (h.notMem_rest harray)
  · rintro ⟨htop, hio⟩
    obtain ⟨rest', harray'⟩ := heapTop_eq_some_iff.mp htop
    obtain ⟨rfl, rfl⟩ := List.cons.inj (harray.symm.trans harray')
    have hsame : SameDeadlines loop (rearmed loop top timeout) rest := fun u hu =>
      hothers u fun heq => h.notMem_rest harray (heq ▸ hu)
    obtain ⟨hordered, hperm⟩ := h.rotate harray htimers hsame
    refine ⟨_, ⟨hio, rfl⟩, ⟨?_, hdeadline, ?_, hordered.ordered⟩⟩
    · rw [harray]
      exact hperm
    · rwa [harray, List.erase_cons_head]

/-- Both calls touch no timer but the one they name, where that one is at the top. -/
theorem timer_frame_iff (h : TimersOrdered loop) (ht : t ∈ loop.timers.array)
    (hlive : (loop.timer t).Live) :
    (Cancels loop t (delTimer loop t) ↔ heapTop loop.timers = some t) ∧
      ∀ timeout, (∃ loop', resetTimer loop t timeout = some loop' ∧
          Rearms loop t timeout loop') ↔
        heapTop loop.timers = some t ∧ (loop.timer t).privdata ≠ none :=
  ⟨cancels_delTimer_iff h ht, rearms_resetTimer_iff h ht hlive⟩

/-- A loop with a timer for 10 and one for 20 milliseconds. -/
def twoTimers : Loop :=
  { loopInit 0 2 (fun t => { Timer.zero with next_timeout := 10 * (t + 1), privdata := some 0 })
      (fun _ => none) with
    timers := { array := [0, 1], capacity := 1000 } }

theorem twoTimers_ordered : TimersOrdered twoTimers := by
  refine ⟨by decide, by decide, ?_⟩
  intro i hpos hi
  have hlt : i < 2 := hi
  obtain rfl : i = 1 := by omega
  decide

theorem timer_frame_iff_first :
    Cancels twoTimers 0 (delTimer twoTimers 0) ∧
      ∃ loop', resetTimer twoTimers 0 30 = some loop' ∧ Rearms twoTimers 0 30 loop' := by
  have h := timer_frame_iff (t := 0) twoTimers_ordered (by decide) ⟨rfl, rfl⟩
  exact ⟨h.1.mpr rfl, (h.2 30).mpr ⟨rfl, Option.some_ne_none 0⟩⟩

/-- Cancelling or arming the second timer again takes the first one out. -/
theorem not_timer_frame_second :
    TimersOrdered twoTimers ∧ 1 ∈ twoTimers.timers.array ∧
      ¬ Cancels twoTimers 1 (delTimer twoTimers 1) ∧
      ¬ ∃ loop', resetTimer twoTimers 1 30 = some loop' ∧ Rearms twoTimers 1 30 loop' := by
  have hmem : 1 ∈ twoTimers.timers.array := by decide
  refine ⟨twoTimers_ordered, hmem, fun h => ?_, fun h => ?_⟩
  · have htop := (cancels_delTimer_iff twoTimers_ordered hmem).mp h
    exact absurd htop (by decide)
  · have htop := (rearms_resetTimer_iff twoTimers_ordered hmem ⟨rfl, rfl⟩ 30).mp h
    exact absurd htop.1 (by decide)

end Frame

end LibConn
