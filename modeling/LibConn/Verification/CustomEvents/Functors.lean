import LibConn.Model.PostEvent
import LibConn.Shared.Run
import LibConn.Verification.CustomEvents.Delivery

/-! # The order of functors

The queue and the slots are kept in step by the bytes in the pipe alone. They stay so as
long as no write fails, no slot is missing, and `pipe_read_cb` takes as many bytes as there
are filled slots. -/

namespace LibConn.PostEvent

open LibConn.Run LibConn.CustomEvents

/-- Functors run once and in push order. When the pipe is empty and the loop idle, only
`postEvent` calls that are still under way have functors in the queue. -/
structure InOrder (s : System) : Prop where
  no_fault : s.fault = false
  once_in_order : s.ran.Sublist s.pushed
  settled : s.loop.m_loop.pipe = [] → s.reading = none → s.draining = none →
    s.loop.m_eventQueue.length = s.posting.length

/-- Each post writes its byte and finds a slot, and `pipe_read_cb` has read as many bytes as
there are filled slots, or more where the slots behind them have no callback. -/
def Guard (s : System) : Action → Prop
  | .post _ nwrite =>
      nwrite = 1 ∧ s.loop.m_loop.custom_events_num < s.loop.m_loop.max_custom_events_num
  | .lock => ∀ nbytes, s.reading = some nbytes →
      s.loop.m_loop.custom_events_num ≤ nbytes ∧
        ∀ i, s.loop.m_loop.custom_events_num ≤ i → i < nbytes → s.loop.m_loop.runs i = false
  | _ => True

/-- The first slot that `pipe_read_cb` has not run. -/
def System.next (s : System) : ℕ :=
  (s.draining.map Prod.fst).getD 0

/-- The queue holds one functor for each filled slot that is still to run and for each
`postEvent` under way, and the pipe has a byte for each filled slot. -/
structure InStep (s : System) : Prop where
  no_fault : s.fault = false
  popped : ∃ popped, s.pushed = popped ++ s.loop.m_eventQueue ∧ s.ran = popped.filter Event.fn
  queued : s.loop.m_eventQueue.length =
    (s.loop.m_loop.custom_events_num - s.next) + s.posting.length
  filled : ∀ i, i < s.loop.m_loop.custom_events_num → s.loop.m_loop.runs i = true
  bytes : s.draining = none →
    s.loop.m_loop.custom_events_num ≤ s.loop.m_loop.pipe.length + s.reading.getD 0
  draining : ∀ i nbytes, s.draining = some (i, nbytes) →
    s.loop.m_loop.custom_events_num ≤ nbytes ∧
      ∀ j, s.loop.m_loop.custom_events_num ≤ j → j < nbytes → s.loop.m_loop.runs j = false

theorem InStep.inOrder {s : System} (h : InStep s) : InOrder s := by
  obtain ⟨popped, hpushed, hran⟩ := h.popped
  refine ⟨h.no_fault, ?_, ?_⟩
  · rw [hran, hpushed]
    exact List.filter_sublist.trans (List.sublist_append_left ..)
  · intro hpipe hreading hdraining
    have hbytes := h.bytes hdraining
    rw [hpipe, hreading] at hbytes
    have hqueued := h.queued
    simp only [List.length_nil, Option.getD_none, Nat.add_zero, Nat.le_zero] at hbytes
    rw [hbytes] at hqueued
    omega

theorem inStep_start (malloced : ℕ → Option CustomEvents.Event) :
    InStep (System.start malloced) := by
  refine ⟨rfl, ⟨[], rfl, rfl⟩, rfl, ?_, ?_, nofun⟩
  · exact fun i hi => absurd hi (Nat.not_lt_zero i)
  · exact fun _ => Nat.zero_le _

/-! ## Steps -/

section Steps

variable {s t : System}

theorem InStep.push {ev : Event} (h : InStep s) (hstep : s.step (.push ev) = some t) :
    InStep t := by
  simp only [System.step, h.no_fault, Bool.false_eq_true, ite_false, Option.some.injEq] at hstep
  subst hstep
  obtain ⟨popped, hpushed, hran⟩ := h.popped
  refine ⟨rfl, ⟨popped, ?_, hran⟩, ?_, h.filled, h.bytes, h.draining⟩
  · rw [hpushed, List.append_assoc]
  · have hqueued := h.queued
    simp only [List.length_append, List.length_singleton, System.next] at hqueued ⊢
    omega

theorem runs_store {loop : CustomEvents.EventLoop} {event : CustomEvents.Event} {i j : ℕ}
    (hroom : i < loop.max_custom_events_num) (hcb : event.cb = true)
    (h : j ≠ i → loop.runs j = true) : (loop.store i event).runs j = true := by
  rw [EventLoop.runs, store_of_lt event hroom]
  rcases eq_or_ne j i with rfl | hne
  · rw [Function.update_self, Option.any_some, hcb]
  · rw [Function.update_of_ne hne]
    exact h hne

theorem InStep.post {ev : Event} {nwrite : ℤ} (h : InStep s) (hg : Guard s (.post ev nwrite))
    (hstep : s.step (.post ev nwrite) = some t) : InStep t := by
  obtain ⟨rfl, hroom⟩ := hg
  simp only [System.step, h.no_fault, Bool.false_eq_true, ite_false, Option.ite_none_right_eq_some,
    Option.some.injEq] at hstep
  obtain ⟨⟨hmem, hdraining⟩, rfl⟩ := hstep
  have hlen := List.length_erase_of_mem hmem
  have hpos := List.length_pos_of_mem hmem
  have hqueued := h.queued
  have hbytes := h.bytes hdraining
  refine ⟨rfl, h.popped, ?_, ?_, ?_, ?_⟩
  · simp only [System.next, hdraining, Option.map_none, Option.getD_none, loopPostEvent, ne_eq,
      not_true_eq_false, ite_false] at hqueued ⊢
    omega
  · intro i hi
    simp only [loopPostEvent, ne_eq, not_true_eq_false, ite_false] at hi ⊢
    apply runs_store hroom rfl
    intro hne
    exact h.filled i (by omega)
  · intro _
    simp only [loopPostEvent, ne_eq, not_true_eq_false, ite_false, List.length_append,
      List.length_singleton]
    omega
  · intro i nbytes hsome
    rw [hdraining] at hsome
    cases hsome

/-- A byte too many is harmless as long as it is not read. -/
theorem InStep.wakeup {nwrite : ℤ} (h : InStep s) (hstep : s.step (.wakeup nwrite) = some t) :
    InStep t := by
  simp only [System.step, h.no_fault, Bool.false_eq_true, ite_false, Option.some.injEq] at hstep
  subst hstep
  by_cases hwrite : nwrite = 1
  · have hloop : s.loop.wakeup nwrite =
        { s.loop with m_loop := eventLoopWakeup s.loop.m_loop } := if_neg (not_not.mpr hwrite)
    rw [hloop]
    refine ⟨rfl, h.popped, h.queued, h.filled, fun hdraining => ?_, h.draining⟩
    have hbytes := h.bytes hdraining
    simp only [eventLoopWakeup, List.length_append, List.length_singleton]
    omega
  · have hloop : s.loop.wakeup nwrite = s.loop := if_pos hwrite
    rw [hloop]
    exact ⟨rfl, h.popped, h.queued, h.filled, h.bytes, h.draining⟩

theorem InStep.read {k : ℕ} (h : InStep s) (hstep : s.step (.read k) = some t) : InStep t := by
  simp only [System.step, h.no_fault, Bool.false_eq_true, ite_false, Option.ite_none_right_eq_some,
    Option.some.injEq] at hstep
  obtain ⟨⟨hreading, hdraining, -, hk⟩, rfl⟩ := hstep
  refine ⟨rfl, h.popped, h.queued, h.filled, fun _ => ?_, h.draining⟩
  have hbytes := h.bytes hdraining
  simp only [hreading, Option.getD_none] at hbytes
  simp only [List.length_drop, Option.getD_some]
  omega

theorem InStep.lock (h : InStep s) (hg : Guard s .lock) (hstep : s.step .lock = some t) :
    InStep t := by
  simp only [System.step, h.no_fault, Bool.false_eq_true, ite_false, Option.ite_none_right_eq_some,
    Option.map_eq_some_iff] at hstep
  obtain ⟨hdraining, nbytes, hreading, rfl⟩ := hstep
  have hqueued := h.queued
  refine ⟨rfl, h.popped, ?_, h.filled, nofun, ?_⟩
  · simpa only [System.next, hdraining, Option.map_none, Option.getD_none, Option.map_some,
      Option.getD_some] using hqueued
  · rintro i n ⟨⟩
    exact hg nbytes hreading

theorem InStep.slot (h : InStep s) (hstep : s.step .slot = some t) : InStep t := by
  simp only [System.step, h.no_fault, Bool.false_eq_true, ite_false, Option.bind_eq_some_iff]
    at hstep
  obtain ⟨⟨i, nbytes⟩, hdraining, hstep⟩ := hstep
  dsimp only at hstep
  split_ifs at hstep with hlt hruns
  · cases hstep
    obtain ⟨hnum, hquiet⟩ := h.draining i nbytes hdraining
    have hfilled : i < s.loop.m_loop.custom_events_num := by
      by_contra hge
      rw [hquiet i (by omega) hlt] at hruns
      exact absurd hruns Bool.false_ne_true
    have hqueued := h.queued
    simp only [System.next, hdraining, Option.map_some, Option.getD_some] at hqueued
    obtain ⟨popped, hpushed, hran⟩ := h.popped
    cases hqueue : s.loop.m_eventQueue with
    | nil =>
        rw [hqueue, List.length_nil] at hqueued
        omega
    | cons ev rest =>
        have hpop : s.loop.popFront = some (ev, { s.loop with m_eventQueue := rest }) := by
          rw [EventLoop.popFront, hqueue]
        rw [System.onCustomEvent, hpop]
        rw [hqueue, List.length_cons] at hqueued
        refine ⟨rfl, ⟨popped ++ [ev], ?_, ?_⟩, ?_, h.filled, nofun, ?_⟩
        · rw [hpushed, hqueue, List.append_assoc, List.singleton_append]
        · rw [List.filter_append, ← hran]
          cases hfn : ev.fn <;> simp [hfn]
        · simp only [System.next, Option.map_some, Option.getD_some]
          omega
        · rintro j n ⟨⟩
          exact h.draining i nbytes hdraining
  · cases hstep
    have hqueued := h.queued
    simp only [System.next, hdraining, Option.map_some, Option.getD_some] at hqueued
    have hempty : s.loop.m_loop.custom_events_num ≤ i := by
      by_contra hge
      exact hruns (h.filled i (by omega))
    refine ⟨rfl, h.popped, ?_, h.filled, nofun, ?_⟩
    · simp only [System.next, Option.map_some, Option.getD_some]
      omega
    · rintro j n ⟨⟩
      exact h.draining i nbytes hdraining

theorem InStep.unlock (h : InStep s) (hstep : s.step .unlock = some t) : InStep t := by
  simp only [System.step, h.no_fault, Bool.false_eq_true, ite_false, Option.bind_eq_some_iff]
    at hstep
  obtain ⟨⟨i, nbytes⟩, hdraining, hstep⟩ := hstep
  dsimp only at hstep
  split_ifs at hstep with hend
  cases hstep
  obtain ⟨hnum, -⟩ := h.draining i nbytes hdraining
  have hqueued := h.queued
  simp only [System.next, hdraining, Option.map_some, Option.getD_some] at hqueued
  refine ⟨rfl, h.popped, ?_, ?_, fun _ => Nat.zero_le _, nofun⟩
  · simp only [System.next, Option.map_none, Option.getD_none, pipeReadCb]
    omega
  · exact fun j hj => absurd hj (Nat.not_lt_zero j)

end Steps

theorem InStep.step (s : System) (a : Action) (t : System) (h : InStep s) (hg : Guard s a)
    (hstep : s.step a = some t) : InStep t := by
  cases a with
  | push ev => exact h.push hstep
  | post ev nwrite => exact h.post hg hstep
  | wakeup nwrite => exact h.wakeup hstep
  | read k => exact h.read hstep
  | lock => exact h.lock hg hstep
  | slot => exact h.slot hstep
  | unlock => exact h.unlock hstep

/-! ## Runs -/

/-- Whatever `malloc` left in the slots and however the threads interleave, guarded runs keep
functors in order. -/
theorem inOrder_along (malloced : ℕ → Option CustomEvents.Event) (run : List Action)
    (h : Meets System.step Guard (System.start malloced) run) :
    Along System.step InOrder (System.start malloced) run :=
  (along_of_meets InStep.step (inStep_start malloced) h).mono fun _ hs => hs.inOrder

/-- Two `postEvent` calls that overlap, and one drain for both. -/
theorem inOrder_along_two :
    Along System.step InOrder (System.start fun _ => none)
      [.push ⟨1, true⟩, .push ⟨2, true⟩, .post ⟨2, true⟩ 1, .post ⟨1, true⟩ 1, .read 2, .lock,
        .slot, .slot, .unlock] := by
  apply inOrder_along _ _
  rintro _ ⟨⟩
  refine ⟨trivial, ?_⟩
  rintro _ ⟨⟩
  refine ⟨trivial, ?_⟩
  rintro _ ⟨⟩
  refine ⟨⟨rfl, by decide⟩, ?_⟩
  rintro _ ⟨⟩
  refine ⟨⟨rfl, by decide⟩, ?_⟩
  rintro _ ⟨⟩
  refine ⟨trivial, ?_⟩
  rintro _ ⟨⟩
  refine ⟨?_, ?_⟩
  · intro nbytes hreading
    obtain rfl : 2 = nbytes := Option.some.inj hreading
    refine ⟨by decide, fun i hge hlt => ?_⟩
    change 2 ≤ i at hge
    omega
  rintro _ ⟨⟩
  refine ⟨trivial, ?_⟩
  rintro _ ⟨⟩
  refine ⟨trivial, ?_⟩
  rintro _ ⟨⟩
  exact ⟨trivial, trivial⟩

/-- A wake-up byte after a drain runs the slot of that drain again, on an empty queue. -/
theorem not_inOrder_wakeup :
    ¬ Along System.step InOrder (System.start fun _ => none)
      [.push ⟨1, true⟩, .post ⟨1, true⟩ 1, .read 1, .lock, .slot, .unlock, .wakeup 1, .read 1,
        .lock, .slot] := by
  intro h
  have hfault := (h.exec rfl).no_fault
  revert hfault
  decide

end LibConn.PostEvent
