import LibConn.Model.Firing
import LibConn.Verification.Events.PendingList
import LibConn.Verification.Timer.Processing

/-! # The pending list and the heap while callbacks run

A timer is on the pending list once it has fired for the last time. As long as `reset_timer`
takes no other timer out of the heap, the heap holds distinct live timers in order, and the
list can be walked to its end whatever the callbacks do. -/

namespace LibConn

/-- The part of a timer that every event has. -/
def Timer.event (timer : Timer) : Events.Event where
  allocated := timer.allocated
  cb := timer.cb.isSome
  next_event := timer.next_event
  pending := timer.pending
  destory := timer.destory
  active := timer.active

/-- What the flags of a timer say. -/
structure Timer.Flagged (timer : Timer) : Prop where
  pending : timer.pending = true → timer.destory = true
  destory : timer.destory = true → timer.Spent

/-- The heap of the loop, its timers, and the timers `todo` of the pending list from `head` on. -/
structure Scheduled (loop : Loop) (head : Option ℕ) (todo : List ℕ) : Prop where
  ordered : TimersOrdered loop
  live : ∀ t ∈ loop.timers.array, (loop.timer t).Live
  bounded : ∀ t ∈ loop.timers.array, (loop.timer t).repeats ≤ uint32Max
  flagged : ∀ t, (loop.timer t).allocated = true → (loop.timer t).Flagged
  chain : Events.Chain (fun t => (loop.timer t).event) head todo
  nodup : todo.Nodup
  held : ∀ t ∈ todo, (loop.timer t).allocated = true ∧ (loop.timer t).Spent

/-- The state between two steps: the timer whose callback `process_pending_event` has called is
behind on the list. -/
structure FiringSystem.Scheduled (s : FiringSystem) (todo : List ℕ) : Prop where
  loop : LibConn.Scheduled s.loop s.head todo
  current : ∀ cur next, s.stage = .calling cur next → cur ∉ todo

section Write

variable {loop loop' : Loop} {head : Option ℕ} {todo rest : List ℕ} {t : ℕ}

theorem Scheduled.chain_write (h : Scheduled loop head todo)
    (hothers : ∀ u, u ≠ t → loop'.timer u = loop.timer u)
    (hself : t ∈ todo → (loop'.timer t).next_event = (loop.timer t).next_event) :
    Events.Chain (fun t => (loop'.timer t).event) head todo := by
  refine h.chain.congr fun u hu => ?_
  rcases eq_or_ne u t with rfl | hne
  · exact hself hu
  · exact congrArg Timer.next_event (hothers u hne)

theorem forall_write {P : Timer → Prop} {Q : ℕ → Prop}
    (hothers : ∀ u, u ≠ t → loop'.timer u = loop.timer u) (h : ∀ u, Q u → P (loop.timer u))
    (hself : Q t → P (loop'.timer t)) : ∀ u, Q u → P (loop'.timer u) := by
  intro u hu
  rcases eq_or_ne u t with rfl | hne
  · exact hself hu
  · rw [hothers u hne]
    exact h u hu

theorem Scheduled.write (h : Scheduled loop head todo) (hordered : TimersOrdered loop')
    (hmem : ∀ u ∈ loop'.timers.array, u = t ∨ u ∈ loop.timers.array)
    (hothers : ∀ u, u ≠ t → loop'.timer u = loop.timer u)
    (hlive : t ∈ loop'.timers.array →
      (loop'.timer t).Live ∧ (loop'.timer t).repeats ≤ uint32Max)
    (hflagged : (loop'.timer t).allocated = true → (loop'.timer t).Flagged)
    (hheld : t ∈ todo → (loop'.timer t).next_event = (loop.timer t).next_event ∧
      (loop'.timer t).allocated = true ∧ (loop'.timer t).Spent) :
    Scheduled loop' head todo := by
  have hin : ∀ u, u ≠ t → u ∈ loop'.timers.array → u ∈ loop.timers.array :=
    fun u hne hu => (hmem u hu).resolve_left hne
  refine ⟨hordered, fun u hu => ?_, fun u hu => ?_, fun u hu => ?_,
    h.chain_write hothers fun ht => (hheld ht).1, h.nodup, ?_⟩
  · rcases eq_or_ne u t with rfl | hne
    · exact (hlive hu).1
    · rw [hothers u hne]
      exact h.live u (hin u hne hu)
  · rcases eq_or_ne u t with rfl | hne
    · exact (hlive hu).2
    · rw [hothers u hne]
      exact h.bounded u (hin u hne hu)
  · rcases eq_or_ne u t with rfl | hne
    · exact hflagged hu
    · rw [hothers u hne] at hu ⊢
      exact h.flagged u hu
  · exact forall_write (P := fun timer => timer.allocated = true ∧ timer.Spent) hothers h.held
      fun ht => (hheld ht).2

end Write

/-! ## What the operations do -/

section Ops

variable {loop loop' : Loop} {head : Option ℕ} {todo rest : List ℕ} {t : ℕ}

/-- The timer `new` is stored and goes into the heap. -/
structure Inserts (loop : Loop) (t : ℕ) (new : Timer) (loop' : Loop) : Prop where
  self : loop'.timer t = new
  others : ∀ u, u ≠ t → loop'.timer u = loop.timer u
  timers : loop'.timers = heapInsert (timersCompare loop') loop.timers t
  pending : loop'.pending = loop.pending

/-- What `add_timer` makes of the memory that it gets. -/
def newTimer (timeout : ℤ) (cb : Option TimerCb) (repeats now : ℕ) : Timer :=
  { Timer.zero with
    timeout := u64 timeout
    next_timeout := u64 (now + timeout)
    cb := cb
    repeats := if repeats = 0 then 1 else repeats }

/-- What `reset_timer` makes of a timer. -/
def resetTo (timer : Timer) (next_timeout : ℕ) : Timer :=
  { timer with
    next_timeout := next_timeout, destory := false, active := true, pending := false }

theorem addTimer_inserts {timeout : ℤ} {cb : Option TimerCb} {repeats now : ℕ} {mem : Option ℕ}
    (h : addTimer loop timeout cb repeats now mem = (some t, loop')) :
    Inserts loop t (newTimer timeout cb repeats now) loop' ∧ loop'.cur_ms = now := by
  obtain ⟨htimeout, rfl⟩ := addTimer_some h
  unfold addTimer at h
  rw [if_neg htimeout] at h
  obtain ⟨-, rfl⟩ := Prod.mk.inj h
  refine ⟨⟨?_, fun u hu => ?_, rfl, rfl⟩, rfl⟩
  · simp [Loop.insertTimer, Loop.setTimer, updateLoopTimer, newTimer]
  · simp [Loop.insertTimer, Loop.setTimer, updateLoopTimer, hu]

theorem addTimer_none {timeout : ℤ} {cb : Option TimerCb} {repeats now : ℕ} {mem : Option ℕ}
    (h : addTimer loop timeout cb repeats now mem = (none, loop')) : loop' = loop := by
  unfold addTimer at h
  by_cases htimeout : timeout = 0
  · rw [if_pos htimeout] at h
    exact (Prod.mk.inj h).2.symm
  · rw [if_neg htimeout] at h
    cases mem with
    | none => exact (Prod.mk.inj h).2.symm
    | some u => cases (Prod.mk.inj h).1

theorem resetTimer_fired {timeout : ℤ} (h : resetTimer loop t timeout = some loop')
    (hdestory : (loop.timer t).destory = true) :
    Inserts loop t (resetTo (loop.timer t) (u64 (loop.cur_ms + timeout))) loop' ∧
      (loop.timer t).allocated = true ∧ loop'.cur_ms = loop.cur_ms := by
  rw [resetTimer, Option.ite_none_right_eq_some] at h
  obtain ⟨⟨halloc, -⟩, h⟩ := h
  rw [if_neg (by simp [hdestory])] at h
  obtain rfl := Option.some.inj h
  refine ⟨⟨?_, fun u hu => ?_, ?_, rfl⟩, halloc, rfl⟩
  · simp [eventReset, Loop.setTimer, Loop.insertTimer, resetTo]
  · simp [eventReset, Loop.setTimer, Loop.insertTimer, hu]
  · -- `event_reset` leaves the deadlines alone
    let moved := { loop with timers_num := u32 (loop.timers_num + 1) }.setTimer t
      { loop.timer t with next_timeout := u64 (loop.cur_ms + timeout) }
    have hcompare : timersCompare (eventReset (Loop.insertTimer moved t) t) = timersCompare moved :=
      timersCompare_congr fun u => by
        rcases eq_or_ne u t with rfl | hu
        · simp [moved, eventReset, Loop.setTimer, Loop.insertTimer]
        · simp [moved, eventReset, Loop.setTimer, Loop.insertTimer, hu]
    rw [hcompare]
    rfl

theorem rearmed_self (loop : Loop) (t : ℕ) (timeout : ℤ) :
    (rearmed loop t timeout).timer t =
      resetTo (loop.timer t) (u64 (loop.cur_ms + timeout)) := by
  simp [rearmed, eventReset, Loop.setTimer, Loop.insertTimer, resetTo]

theorem rearmed_of_ne {u : ℕ} (timeout : ℤ) (hu : u ≠ t) :
    (rearmed loop t timeout).timer u = loop.timer u := by
  simp [rearmed, eventReset, Loop.setTimer, Loop.insertTimer, Loop.popTimer, hu]

theorem rearmed_perm (h : TimersOrdered loop) (htop : heapTop loop.timers = some t) (timeout : ℤ) :
    t ∈ loop.timers.array ∧ (rearmed loop t timeout).timers.array.Perm loop.timers.array := by
  obtain ⟨rest, harray⟩ := heapTop_eq_some_iff.mp htop
  refine ⟨by simp [harray], ?_⟩
  rw [rearmed_timers, harray]
  exact rotate_perm _ _ t harray h.size_le

theorem resetTo_flagged (timer : Timer) (next_timeout : ℕ) :
    (resetTo timer next_timeout).Flagged where
  pending h := by cases h
  destory h := by cases h

theorem Scheduled.notPending (h : Scheduled loop head todo) (ht : t ∈ loop.timers.array) :
    (loop.timer t).pending = false := by
  by_contra hne
  have hdestory := (h.flagged t (h.live t ht).1).pending (by simpa using hne)
  exact absurd (hdestory.symm.trans (h.live t ht).2) (by decide)

theorem Scheduled.gone (h : Scheduled loop head todo) (hdestory : (loop.timer t).destory = true) :
    t ∉ loop.timers.array :=
  fun ht => absurd (hdestory.symm.trans (h.live t ht).2) (by decide)

theorem Scheduled.unused (h : Scheduled loop head todo) (hmem : loop.memFree (some t)) :
    t ∉ loop.timers.array ∧ t ∉ todo := by
  have hfree : (loop.timer t).allocated ≠ true := by simp [hmem t rfl]
  exact ⟨fun ht => hfree (h.live t ht).1, fun ht => hfree (h.held t ht).1⟩

theorem Scheduled.inserts {new : Timer} (h : Scheduled loop head todo)
    (hins : Inserts loop t new loop') (hfresh : t ∉ loop.timers.array) (hlive : new.Live)
    (hbounded : new.repeats ≤ uint32Max) (hflagged : new.Flagged)
    (hheld : t ∈ todo → new.next_event = (loop.timer t).next_event ∧ new.Spent) :
    Scheduled loop' head todo := by
  have hsame : SameDeadlines loop loop' loop.timers.array := by
    intro u hu
    rw [hins.others u fun heq => hfresh (heq ▸ hu)]
  obtain ⟨hordered, hmem, -⟩ := h.ordered.insert hfresh hins.timers hsame
  apply h.write hordered hmem hins.others
  · rw [hins.self]
    exact fun _ => ⟨hlive, hbounded⟩
  · rw [hins.self]
    exact fun _ => hflagged
  · rw [hins.self]
    exact fun ht => ⟨(hheld ht).1, hlive.1, (hheld ht).2⟩

theorem Scheduled.addTimer {timeout : ℤ} {cb : Option TimerCb} {repeats now : ℕ}
    {mem : Option ℕ} (h : Scheduled loop head todo) (hmem : loop.memFree mem)
    (hrepeats : repeats ≤ uint32Max)
    (hadd : addTimer loop timeout cb repeats now mem = (some t, loop')) :
    Scheduled loop' head todo := by
  obtain ⟨hins, -⟩ := addTimer_inserts hadd
  obtain ⟨-, rfl⟩ := addTimer_some hadd
  obtain ⟨hfresh, htodo⟩ := h.unused hmem
  apply h.inserts hins hfresh
  · exact ⟨rfl, rfl⟩
  · rw [newTimer]
    split_ifs
    · show 1 ≤ uint32Max
      decide
    · exact hrepeats
  · exact ⟨fun hpending => (by cases hpending), fun hdestory => (by cases hdestory)⟩
  · exact fun ht => absurd ht htodo

theorem Scheduled.resetTimer {timeout : ℤ} (h : Scheduled loop head todo)
    (htop : (loop.timer t).destory = false → heapTop loop.timers = some t)
    (hreset : resetTimer loop t timeout = some loop') : Scheduled loop' head todo := by
  cases hdestory : (loop.timer t).destory with
  | true =>
      obtain ⟨hins, halloc, -⟩ := resetTimer_fired hreset hdestory
      have hspent := (h.flagged t halloc).destory hdestory
      apply h.inserts hins (h.gone hdestory)
      · exact ⟨halloc, rfl⟩
      · rcases hspent with hzero | hmax
        · exact hzero.trans_le (Nat.zero_le _)
        · exact hmax.le
      · exact resetTo_flagged _ _
      · exact fun _ => ⟨rfl, hspent⟩
  | false =>
      obtain ⟨rest, harray⟩ := heapTop_eq_some_iff.mp (htop hdestory)
      have ht : t ∈ loop.timers.array := by simp [harray]
      obtain ⟨-, rfl⟩ := (resetTimer_armed (h.live t ht)).mp hreset
      have hsame : SameDeadlines loop (rearmed loop t timeout) rest := fun u hu =>
        rearmed_others loop timeout u fun heq => h.ordered.notMem_rest harray (heq ▸ hu)
      obtain ⟨hordered, hperm⟩ := h.ordered.rotate harray (rearmed_timers loop t timeout) hsame
      rw [← harray] at hperm
      apply h.write (t := t) hordered
      · exact fun u hu => Or.inr (hperm.mem_iff.mp hu)
      · exact fun u hu => rearmed_of_ne timeout hu
      · rw [rearmed_self]
        exact fun _ => ⟨⟨(h.live t ht).1, rfl⟩, h.bounded t ht⟩
      · rw [rearmed_self]
        exact fun _ => resetTo_flagged _ _
      · rw [rearmed_self]
        exact fun hmem => ⟨rfl, (h.held t hmem).1, (h.held t hmem).2⟩

theorem Scheduled.leaves (h : Scheduled loop head todo) (hordered : TimersOrdered loop')
    (hmem : ∀ u ∈ loop'.timers.array, u ∈ loop.timers.array) (htimer : loop'.timer = loop.timer) :
    Scheduled loop' head todo where
  ordered := hordered
  live u hu := htimer ▸ h.live u (hmem u hu)
  bounded u hu := htimer ▸ h.bounded u (hmem u hu)
  flagged u hu := by
    rw [htimer] at hu ⊢
    exact h.flagged u hu
  chain := htimer ▸ h.chain
  nodup := h.nodup
  held u hu := htimer ▸ h.held u hu

theorem TimersOrdered.popTimer (h : TimersOrdered loop) : TimersOrdered loop.popTimer ∧
    ∀ u ∈ loop.popTimer.timers.array, u ∈ loop.timers.array := by
  have hperm := heapPop_perm (timersCompare loop) loop.timers
  have hmem : ∀ u ∈ loop.popTimer.timers.array, u ∈ loop.timers.array :=
    fun u hu => List.mem_of_mem_tail (hperm.mem_iff.mp hu)
  refine ⟨⟨?_, ?_, heapPop_ordered h.ordered⟩, hmem⟩
  · exact hperm.nodup_iff.mpr h.nodup.tail
  · have hsize : loop.popTimer.timers.size = loop.timers.array.tail.length := hperm.length_eq
    have hle : loop.timers.array.length ≤ loop.timers.capacity := h.size_le
    rw [hsize, Loop.popTimer, heapPop_capacity, List.length_tail]
    omega

theorem Scheduled.delTimer (h : Scheduled loop head todo) :
    Scheduled (LibConn.delTimer loop t) head todo := by
  have hpop := h.ordered.popTimer
  exact h.leaves ⟨hpop.1.nodup, hpop.1.size_le, hpop.1.ordered⟩ hpop.2 rfl

theorem Scheduled.removeTimer (h : Scheduled loop head todo) :
    Scheduled (loop.removeTimer t) head todo := by
  obtain ⟨hordered, hperm⟩ := h.ordered.remove t
  exact h.leaves hordered (fun u hu => List.mem_of_mem_erase (hperm.mem_iff.mp hu)) rfl

theorem Scheduled.setPrivdata (h : Scheduled loop head todo) {new : Timer}
    (hnew : new = { loop.timer t with privdata := new.privdata }) :
    Scheduled (loop.setTimer t new) head todo := by
  have hself : (loop.setTimer t new).timer t = new := by simp [Loop.setTimer]
  have hothers : ∀ u, u ≠ t → (loop.setTimer t new).timer u = loop.timer u :=
    (setTimer_writes new).others
  have hcompare : timersCompare (loop.setTimer t new) = timersCompare loop := by
    apply timersCompare_congr
    intro u
    rcases eq_or_ne u t with rfl | hu
    · rw [hself, hnew]
    · rw [hothers u hu]
  have hordered : TimersOrdered (loop.setTimer t new) :=
    ⟨h.ordered.nodup, h.ordered.size_le, hcompare ▸ h.ordered.ordered⟩
  apply h.write hordered (fun u hu => Or.inr hu) hothers
  · rw [hself, hnew]
    exact fun ht => ⟨h.live t ht, h.bounded t ht⟩
  · rw [hself, hnew]
    exact fun halloc => ⟨(h.flagged t halloc).pending, (h.flagged t halloc).destory⟩
  · rw [hself, hnew]
    exact fun ht => ⟨rfl, h.held t ht⟩

theorem Scheduled.tick (h : Scheduled loop head todo) (now : ℕ) :
    Scheduled (updateLoopTimer loop now) head todo :=
  h.leaves ⟨h.ordered.nodup, h.ordered.size_le, h.ordered.ordered⟩ (fun _ hu => hu) rfl

theorem firedLast_self (h : (loop.timer t).pending = false) :
    (firedLast loop t).timer t =
      { loop.timer t with
        repeats := counted (loop.timer t).repeats, destory := true, pending := true,
        next_event := loop.pending } ∧
      (firedLast loop t).pending = some t := by
  rw [firedLast, countDown_eq, eventPending]
  simp [delTimer, Loop.popTimer, Loop.setTimer, h]

theorem Scheduled.last (h : Scheduled loop loop.pending todo)
    (harray : loop.timers.array = t :: rest) (hlast : (loop.timer t).repeats = 1) :
    Scheduled (firedLast loop t) (firedLast loop t).pending (t :: todo) ∧ t ∉ todo := by
  have ht : t ∈ loop.timers.array := by simp [harray]
  have hnot : t ∉ todo := by
    intro hmem
    rcases (h.held t hmem).2 with hspent | hspent
    · exact absurd (hlast.symm.trans hspent) (by decide)
    · exact absurd (hlast.symm.trans hspent) (by decide)
  obtain ⟨hself, hhead⟩ := firedLast_self (h.notPending ht)
  have hfires := firedLast_spec h.ordered harray hlast
  have hperm := hfires.perm_last hlast
  have hgone : t ∉ (firedLast loop t).timers.array := fun hmem =>
    h.ordered.notMem_rest harray (hperm.mem_iff.mp hmem)
  have hspent : ((firedLast loop t).timer t).Spent := by
    left
    rw [hself, hlast]
    exact counted_one
  have hrest : Scheduled (firedLast loop t) loop.pending todo := by
    apply h.write (t := t) hfires.ordered
    · intro u hu
      right
      rw [harray]
      exact List.mem_cons_of_mem t (hperm.mem_iff.mp hu)
    · exact fun u hu => firedLast_others hu
    · exact fun hmem => absurd hmem hgone
    · intro _
      exact ⟨fun _ => by rw [hself], fun _ => hspent⟩
    · exact fun hmem => absurd hmem hnot
  refine ⟨⟨hrest.ordered, hrest.live, hrest.bounded, hrest.flagged, ?_, ?_, ?_⟩, hnot⟩
  · rw [hhead]
    apply Events.Chain.cons
    have hnext : ((firedLast loop t).timer t).event.next_event = loop.pending := by
      rw [hself]
      rfl
    rw [hnext]
    exact hrest.chain
  · exact List.nodup_cons.mpr ⟨hnot, h.nodup⟩
  · intro u hu
    rcases List.mem_cons.mp hu with rfl | hu
    · rw [hself]
      exact ⟨(h.live u ht).1, hself ▸ hspent⟩
    · exact hrest.held u hu

theorem Scheduled.again (h : Scheduled loop head todo) (harray : loop.timers.array = t :: rest)
    (hmore : (loop.timer t).repeats ≠ 1) : Scheduled (firedAgain loop t) head todo := by
  have ht : t ∈ loop.timers.array := by simp [harray]
  have hfires := firedAgain_spec h.ordered harray hmore
  have hperm : (firedAgain loop t).timers.array.Perm loop.timers.array :=
    harray ▸ hfires.perm_again hmore
  have hcounted : counted (loop.timer t).repeats ≤ uint32Max := by
    have hle := h.bounded t ht
    rw [uint32Max] at hle
    rw [counted, u32, uint32Max]
    split_ifs <;> omega
  apply h.write (t := t) hfires.ordered
  · exact fun u hu => Or.inr (hperm.mem_iff.mp hu)
  · exact fun u hu => firedAgain_others hu
  · rw [firedAgain_self]
    exact fun _ => ⟨h.live t ht, hcounted⟩
  · rw [firedAgain_self]
    intro halloc
    refine ⟨(h.flagged t halloc).pending, fun hdestory => ?_⟩
    exact absurd (hdestory.symm.trans (h.live t ht).2) (by decide)
  · rw [firedAgain_self]
    exact fun hmem => ⟨rfl, (h.held t hmem).1, Or.inr (counted_spent (h.held t hmem).2)⟩

theorem pendingDone_others {u : ℕ} (hu : u ≠ t) :
    (pendingDone loop t).timer u = loop.timer u := by
  unfold pendingDone eventDel
  dsimp only
  split_ifs <;> simp [Loop.setTimer, hu]

@[simp] theorem pendingDone_timers : (pendingDone loop t).timers = loop.timers := by
  unfold pendingDone eventDel
  dsimp only
  split_ifs <;> rfl

theorem pendingDone_self (loop : Loop) (t : ℕ) :
    ((pendingDone loop t).timer t).repeats = (loop.timer t).repeats ∧
      ((pendingDone loop t).timer t).cb = (loop.timer t).cb ∧
      ((pendingDone loop t).timer t).next_timeout = (loop.timer t).next_timeout := by
  unfold pendingDone eventDel
  dsimp only
  split_ifs <;> simp [Loop.setTimer]

/-- The timer whose callback has returned is done, and may be freed. -/
theorem Scheduled.pendingDone (h : Scheduled loop head todo) (hcur : t ∉ todo) :
    Scheduled (pendingDone loop t) head todo := by
  have htimers : (LibConn.pendingDone loop t).timers = loop.timers := pendingDone_timers
  have hsame : SameDeadlines loop (LibConn.pendingDone loop t) loop.timers.array := by
    intro u _
    rcases eq_or_ne u t with rfl | hu
    · exact (pendingDone_self loop u).2.2
    · rw [pendingDone_others hu]
  have hordered : TimersOrdered (LibConn.pendingDone loop t) := by
    refine ⟨?_, ?_, ?_⟩
    · rw [htimers]
      exact h.ordered.nodup
    · rw [htimers]
      exact h.ordered.size_le
    · rw [htimers]
      exact h.ordered.ordered.congr hsame.agreeOn
  have hdone : (loop.timer t).destory = false →
      (LibConn.pendingDone loop t).timer t = { loop.timer t with pending := false } := by
    intro hdestory
    simp [LibConn.pendingDone, Loop.setTimer, hdestory]
  apply h.write (t := t) hordered
  · exact fun u hu => Or.inr (htimers ▸ hu)
  · exact fun u hu => pendingDone_others hu
  · intro ht
    rw [htimers] at ht
    rw [hdone (h.live t ht).2]
    exact ⟨h.live t ht, h.bounded t ht⟩
  · intro halloc
    cases hdestory : (loop.timer t).destory with
    | true => simp [LibConn.pendingDone, eventDel, Loop.setTimer, hdestory] at halloc
    | false =>
        rw [hdone hdestory]
        refine ⟨fun hpending => (by cases hpending), fun htrue => ?_⟩
        exact absurd (hdestory.symm.trans htrue) (by decide)
  · exact fun hmem => absurd hmem hcur

end Ops

/-! ## The steps -/

section Steps

variable {s s' : FiringSystem} {todo : List ℕ}

/-- `reset_timer` takes no other timer than its own out of the heap. -/
def KeepsTop (s : FiringSystem) : FiringAction → Prop
  | .op (.resetTimer t _) => (s.loop.timer t).destory = false → heapTop s.loop.timers = some t
  | _ => True

/-- `t` fires for the last time. -/
def FiringSystem.expireLast (s : FiringSystem) (t : ℕ) : FiringSystem :=
  { s with
    loop := firedLast s.loop t
    expired := Function.update s.expired t (s.loop.timer t).next_timeout }

/-- `t` fires and is armed again. -/
def FiringSystem.expireAgain (s : FiringSystem) (t : ℕ) : FiringSystem :=
  if (s.loop.timer t).cb = none then { s with loop := firedAgain s.loop t }
  else
    { s with loop := firedAgain s.loop t, stage := .firing t }.called t
      ⟨false, (s.loop.timer t).next_timeout⟩

theorem step_turn (hbounded : ∀ t ∈ s.loop.timers.array, (s.loop.timer t).repeats ≤ uint32Max)
    (hstep : s.step .turn = some s') :
    s.stage = .expiring ∧ ∃ t rest, s.loop.timers.array = t :: rest ∧
      (s.loop.cur_ms < (s.loop.timer t).next_timeout ∧ s' = { s with stage := .idle } ∨
        (s.loop.timer t).next_timeout ≤ s.loop.cur_ms ∧
          ((s.loop.timer t).repeats = 1 ∧ s' = s.expireLast t ∨
            (s.loop.timer t).repeats ≠ 1 ∧ s' = s.expireAgain t)) := by
  simp only [FiringSystem.step, Option.ite_none_right_eq_some] at hstep
  obtain ⟨hstage, hstep⟩ := hstep
  refine ⟨hstage, ?_⟩
  cases harray : s.loop.timers.array with
  | nil =>
      have hfault : processTimerTurn s.loop = .fault := by
        simp [processTimerTurn, heapTop, harray]
      simp [hfault] at hstep
  | cons t rest =>
      have htop : heapTop s.loop.timers = some t := heapTop_eq_some_iff.mpr ⟨rest, harray⟩
      refine ⟨t, rest, rfl, ?_⟩
      by_cases hdue : (s.loop.timer t).next_timeout ≤ s.loop.cur_ms
      · right
        refine ⟨hdue, ?_⟩
        have hturn := processTimerTurn_due (hbounded t (by simp [harray])) harray hdue
        by_cases hlast : (s.loop.timer t).repeats = 1
        · left
          rw [hturn, if_pos hlast] at hstep
          exact ⟨hlast, (Option.some.inj hstep).symm⟩
        · right
          rw [hturn, if_neg hlast] at hstep
          refine ⟨hlast, ?_⟩
          have hcb : ((firedAgain s.loop t).timer t).cb = (s.loop.timer t).cb := by
            rw [firedAgain_self]
          simp only [hcb] at hstep
          rw [FiringSystem.expireAgain]
          split_ifs at hstep ⊢
          · exact (Option.some.inj hstep).symm
          · exact (Option.some.inj hstep).symm
      · left
        have hturn : processTimerTurn s.loop = .stop := by
          simp only [processTimerTurn, htop]
          exact if_pos (Nat.lt_of_not_le hdue)
        rw [hturn] at hstep
        exact ⟨Nat.lt_of_not_le hdue, (Option.some.inj hstep).symm⟩

theorem step_visit (hstep : s.step .visit = some s') :
    (s.stage = .pending none ∧
        s' = { s with loop := { s.loop with pending := none }, stage := .idle }) ∨
      ∃ cur, s.stage = .pending (some cur) ∧
        ((s.loop.timer cur).cb = none ∧
            s' = { s with stage := .pending (s.loop.timer cur).next_event } ∨
          (s.loop.timer cur).cb ≠ none ∧
            s' = { s with stage := .calling cur (s.loop.timer cur).next_event }.called cur
              ⟨true, s.expired cur⟩) := by
  cases hstage : s.stage with
  | pending head =>
      cases head with
      | none =>
          left
          simp only [FiringSystem.step, hstage, Option.some.injEq] at hstep
          exact ⟨rfl, hstep.symm⟩
      | some cur =>
          right
          refine ⟨cur, rfl, ?_⟩
          simp only [FiringSystem.step, hstage, Option.ite_none_right_eq_some] at hstep
          obtain ⟨-, hstep⟩ := hstep
          split_ifs at hstep with hcb
          · exact Or.inl ⟨hcb, (Option.some.inj hstep).symm⟩
          · exact Or.inr ⟨hcb, (Option.some.inj hstep).symm⟩
  | idle => simp [FiringSystem.step, hstage] at hstep
  | expiring => simp [FiringSystem.step, hstage] at hstep
  | firing t => simp [FiringSystem.step, hstage] at hstep
  | calling cur next => simp [FiringSystem.step, hstage] at hstep

theorem step_ret (hstep : s.step .ret = some s') :
    (∃ t, s.stage = .firing t ∧ s' = { s with stage := .expiring }) ∨
      ∃ cur next, s.stage = .calling cur next ∧
        s' = { s with loop := pendingDone s.loop cur, stage := .pending next } := by
  cases hstage : s.stage with
  | firing t =>
      left
      simp only [FiringSystem.step, hstage, Option.some.injEq] at hstep
      exact ⟨t, rfl, hstep.symm⟩
  | calling cur next =>
      right
      simp only [FiringSystem.step, hstage, Option.ite_none_right_eq_some,
        Option.some.injEq] at hstep
      exact ⟨cur, next, rfl, hstep.2.symm⟩
  | idle => simp [FiringSystem.step, hstage] at hstep
  | expiring => simp [FiringSystem.step, hstage] at hstep
  | pending cur => simp [FiringSystem.step, hstage] at hstep

theorem head_congr (hstage : s'.stage = s.stage)
    (hpending : s'.loop.pending = s.loop.pending) : s'.head = s.head := by
  rw [FiringSystem.head, FiringSystem.head, hstage, hpending]

theorem runOp_addTimer {timeout : ℤ} {cb : Option TimerCb} {repeats now : ℕ} {mem : Option ℕ}
    (hop : s.runOp (.addTimer timeout cb repeats now mem) = some s') :
    s.loop.memFree mem ∧ repeats ≤ uint32Max ∧
      (s' = s ∨ ∃ t loop', timeout ≠ 0 ∧ mem = some t ∧
        addTimer s.loop timeout cb repeats now mem = (some t, loop') ∧
        s' = { s with
          loop := loop'
          calls := Function.update s.calls t 0
          asked := Function.update s.asked t (askedFor cb repeats) }) := by
  simp only [FiringSystem.runOp, Option.ite_none_right_eq_some] at hop
  obtain ⟨⟨hmem, hrepeats⟩, hop⟩ := hop
  refine ⟨hmem, hrepeats, ?_⟩
  cases hadd : addTimer s.loop timeout cb repeats now mem with
  | mk timer loop =>
      rw [hadd] at hop
      cases timer with
      | none =>
          left
          obtain rfl := Option.some.inj hop
          rw [addTimer_none hadd]
      | some t =>
          right
          obtain ⟨htimeout, hsome⟩ := addTimer_some hadd
          exact ⟨t, loop, htimeout, hsome, rfl, (Option.some.inj hop).symm⟩

theorem runOp_frame {op : TimerOp} (hop : s.runOp op = some s') :
    s'.stage = s.stage ∧ s'.loop.pending = s.loop.pending ∧ s'.expired = s.expired ∧
      s'.log = s.log := by
  cases op with
  | tick now =>
      obtain rfl := Option.some.inj hop
      exact ⟨rfl, rfl, rfl, rfl⟩
  | addTimer timeout cb repeats now mem =>
      obtain ⟨-, -, rfl | ⟨t, loop', -, -, hadd, rfl⟩⟩ := runOp_addTimer hop
      · exact ⟨rfl, rfl, rfl, rfl⟩
      · exact ⟨rfl, (addTimer_inserts hadd).1.pending, rfl, rfl⟩
  | setPrivdata t io =>
      simp only [FiringSystem.runOp, Option.ite_none_right_eq_some] at hop
      obtain rfl := Option.some.inj hop.2
      exact ⟨rfl, rfl, rfl, rfl⟩
  | resetTimer t timeout =>
      obtain ⟨loop, hreset, rfl⟩ := Option.map_eq_some_iff.mp hop
      refine ⟨rfl, ?_, rfl, rfl⟩
      rw [resetTimer, Option.ite_none_right_eq_some] at hreset
      obtain rfl := Option.some.inj hreset.2
      split_ifs <;> rfl
  | delTimer t =>
      simp only [FiringSystem.runOp, Option.ite_none_right_eq_some] at hop
      obtain rfl := Option.some.inj hop.2
      exact ⟨rfl, rfl, rfl, rfl⟩
  | removeTimer t =>
      obtain rfl := Option.some.inj hop
      exact ⟨rfl, rfl, rfl, rfl⟩

/-- The timers that are still to come on the pending list after a step. -/
def todoAfter (s : FiringSystem) (todo : List ℕ) : FiringAction → List ℕ
  | .turn =>
    match s.loop.timers.array with
    | [] => todo
    | t :: _ =>
      if (s.loop.timer t).next_timeout ≤ s.loop.cur_ms ∧ (s.loop.timer t).repeats = 1 then
        t :: todo
      else todo
  | .visit => todo.tail
  | _ => todo

theorem FiringSystem.Scheduled.runOp {op : TimerOp} (h : s.Scheduled todo)
    (hguard : KeepsTop s (.op op)) (hop : s.runOp op = some s') :
    LibConn.Scheduled s'.loop s.head todo := by
  cases op with
  | tick now =>
      obtain rfl := Option.some.inj hop
      exact h.loop.tick now
  | addTimer timeout cb repeats now mem =>
      obtain ⟨hmem, hrepeats, rfl | ⟨t, loop', -, -, hadd, rfl⟩⟩ := runOp_addTimer hop
      · exact h.loop
      · exact h.loop.addTimer hmem hrepeats hadd
  | setPrivdata t io =>
      simp only [FiringSystem.runOp, Option.ite_none_right_eq_some] at hop
      obtain rfl := Option.some.inj hop.2
      exact h.loop.setPrivdata rfl
  | resetTimer t timeout =>
      obtain ⟨loop, hreset, rfl⟩ := Option.map_eq_some_iff.mp hop
      exact h.loop.resetTimer hguard hreset
  | delTimer t =>
      simp only [FiringSystem.runOp, Option.ite_none_right_eq_some] at hop
      obtain rfl := Option.some.inj hop.2
      exact h.loop.delTimer (t := t)
  | removeTimer t =>
      obtain rfl := Option.some.inj hop
      exact h.loop.removeTimer

/-- The head of the list is the first timer to come. -/
theorem Scheduled.tail {loop : Loop} {cur : ℕ} (h : LibConn.Scheduled loop (some cur) todo) :
    LibConn.Scheduled loop (loop.timer cur).next_event todo.tail ∧
      ∃ rest, todo = cur :: rest ∧ cur ∉ rest := by
  obtain ⟨hordered, hlive, hbounded, hflagged, hchain, hnodup, hheld⟩ := h
  cases hchain with
  | @cons _ rest hnext =>
      obtain ⟨hnot, hrest⟩ := List.nodup_cons.mp hnodup
      refine ⟨⟨hordered, hlive, hbounded, hflagged, hnext, hrest, fun u hu => ?_⟩, rest, rfl, hnot⟩
      exact hheld u (List.mem_cons_of_mem cur hu)

theorem Scheduled.todo_nil {loop : Loop} (h : LibConn.Scheduled loop none todo) : todo = [] := by
  have hchain := h.chain
  cases hchain
  rfl

/-- A step keeps the heap, the timers and the list sound. -/
theorem FiringSystem.Scheduled.step {a : FiringAction} (h : s.Scheduled todo)
    (hguard : KeepsTop s a) (hstep : s.step a = some s') :
    s'.Scheduled (todoAfter s todo a) := by
  cases a with
  | op op =>
      simp only [FiringSystem.step, Option.ite_none_right_eq_some] at hstep
      obtain ⟨hstage, hpending, -, -⟩ := runOp_frame hstep.2
      refine ⟨?_, fun cur next hcalling => h.current cur next (hstage ▸ hcalling)⟩
      rw [head_congr hstage hpending]
      exact h.runOp hguard hstep.2
  | processTimer =>
      simp only [FiringSystem.step, Option.ite_none_right_eq_some] at hstep
      obtain ⟨hidle, hstep⟩ := hstep
      obtain rfl := Option.some.inj hstep
      refine ⟨?_, fun cur next hcalling => by cases hcalling⟩
      have hloop := h.loop
      rwa [FiringSystem.head, hidle] at hloop
  | turn =>
      obtain ⟨hstage, t, rest, harray, hturn⟩ := step_turn h.loop.bounded hstep
      have hloop := h.loop
      rw [FiringSystem.head, hstage] at hloop
      simp only [todoAfter, harray]
      rcases hturn with ⟨hlater, rfl⟩ | ⟨hdue, ⟨hlast, rfl⟩ | ⟨hmore, rfl⟩⟩
      · rw [if_neg fun hlast => hlater.not_ge hlast.1]
        exact ⟨hloop, fun cur next hcalling => by cases hcalling⟩
      · rw [if_pos ⟨hdue, hlast⟩]
        refine ⟨?_, fun cur next hcalling => ?_⟩
        · have hhead : (s.expireLast t).head = (firedLast s.loop t).pending := by
            rw [FiringSystem.head, FiringSystem.expireLast, hstage]
          rw [hhead]
          exact (hloop.last harray hlast).1
        · rw [FiringSystem.expireLast, hstage] at hcalling
          cases hcalling
      · rw [if_neg fun hlast => hmore hlast.2]
        have hpending : (firedAgain s.loop t).pending = s.loop.pending := by
          rw [firedAgain, countDown_eq]
          rfl
        have hagain := hloop.again harray hmore
        rw [← hpending] at hagain
        rw [FiringSystem.expireAgain]
        split_ifs with hcb
        · refine ⟨?_, fun cur next hcalling => ?_⟩
          · rw [FiringSystem.head, hstage]
            exact hagain
          · rw [hstage] at hcalling
            cases hcalling
        · exact ⟨hagain, fun cur next hcalling => by cases hcalling⟩
  | processPendingEvent =>
      simp only [FiringSystem.step, Option.ite_none_right_eq_some] at hstep
      obtain ⟨hidle, hstep⟩ := hstep
      obtain rfl := Option.some.inj hstep
      refine ⟨?_, fun cur next hcalling => by cases hcalling⟩
      have hloop := h.loop
      rwa [FiringSystem.head, hidle] at hloop
  | visit =>
      have hloop := h.loop
      rcases step_visit hstep with ⟨hstage, rfl⟩ | ⟨cur, hstage, ⟨-, rfl⟩ | ⟨-, rfl⟩⟩
      · rw [FiringSystem.head, hstage] at hloop
        have htodo : todoAfter s todo .visit = todo := by
          rw [hloop.todo_nil]
          rfl
        rw [htodo]
        refine ⟨?_, fun cur next hcalling => by cases hcalling⟩
        exact ⟨⟨hloop.ordered.nodup, hloop.ordered.size_le, hloop.ordered.ordered⟩, hloop.live,
          hloop.bounded, hloop.flagged, hloop.chain, hloop.nodup, hloop.held⟩
      · rw [FiringSystem.head, hstage] at hloop
        exact ⟨hloop.tail.1, fun cur next hcalling => by cases hcalling⟩
      · rw [FiringSystem.head, hstage] at hloop
        obtain ⟨htail, rest, rfl, hnot⟩ := hloop.tail
        refine ⟨htail, fun u next hcalling => ?_⟩
        obtain ⟨rfl, -⟩ := Stage.calling.inj hcalling
        exact hnot
  | ret =>
      rcases step_ret hstep with ⟨t, hstage, rfl⟩ | ⟨cur, next, hstage, rfl⟩
      · have hloop := h.loop
        rw [FiringSystem.head, hstage] at hloop
        exact ⟨hloop, fun cur next hcalling => by cases hcalling⟩
      · have hloop := h.loop
        rw [FiringSystem.head, hstage] at hloop
        refine ⟨hloop.pendingDone (h.current cur next hstage), fun u next' hcalling => ?_⟩
        cases hcalling

/-- A new loop has no timers. -/
theorem scheduled_start (cur_ms timers_num : ℕ) (timer : ℕ → Timer) (epoll : EpollSet) :
    (FiringSystem.start cur_ms timers_num timer epoll).Scheduled [] := by
  refine ⟨⟨⟨.nil, Nat.zero_le _, ?_⟩, ?_, ?_, ?_, .nil, .nil, ?_⟩, fun cur next hcalling => ?_⟩
  · intro i _ hi
    exact absurd hi (Nat.not_lt_zero i)
  · exact fun t ht => absurd ht List.not_mem_nil
  · exact fun t ht => absurd ht List.not_mem_nil
  · exact fun t halloc => (by cases halloc)
  · exact fun t ht => absurd ht List.not_mem_nil
  · cases hcalling

end Steps

end LibConn
