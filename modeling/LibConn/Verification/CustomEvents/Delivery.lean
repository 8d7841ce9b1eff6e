import LibConn.Model.CustomEvents
import LibConn.Shared.Run
import Mathlib.Order.Lattice
import Mathlib.Data.Nat.Init

/-! # Delivery of custom events

The slots that are filled hold the posts that wait, in post order, and the pipe never
holds fewer bytes than there are filled slots. A drain delivers exactly what waits when
the slots between the bytes it read and the slots that are filled have no callback. -/

namespace LibConn.CustomEvents

open LibConn.Run

/-- Posted events run exactly once, as far as the run has come. -/
structure Delivered (s : System) : Prop where
  once_in_order : (s.calls.map Call.event).Sublist s.posted
  fresh : ∀ call ∈ s.calls, call.fresh = true
  settled : s.loop.pipe = [] → s.reading = none →
    s.calls.map Call.event = s.posted.filter Event.cb

/-- A post finds room in the array; a drain that read `nbytes` bytes finds no callback in
the slots by which `nbytes` misses `custom_events_num`, on either side. -/
def Guard (s : System) : Action → Prop
  | .post _ nwrite => nwrite = 1 → s.loop.custom_events_num < s.loop.max_custom_events_num
  | .pipeReadCb => ∀ nbytes, s.reading = some nbytes → ∀ i,
      min nbytes s.loop.custom_events_num ≤ i → i < max nbytes s.loop.custom_events_num →
        s.loop.runs i = false
  | _ => True

/-- The posts so far are those dealt with, followed by those that wait in the slots. -/
structure Waiting (s : System) (done waiting : List Event) : Prop where
  posted_eq : s.posted = done ++ waiting
  calls_eq : s.calls.map Call.event = done.filter Event.cb
  fresh : ∀ call ∈ s.calls, call.fresh = true
  num_eq : s.loop.custom_events_num = waiting.length
  slots : ∀ i (h : i < waiting.length), s.loop.custom_events i = some waiting[i]
  filled_iff : ∀ i, i ∈ s.filled ↔ i < waiting.length
  bytes : waiting.length ≤ s.loop.pipe.length + s.reading.getD 0

theorem Waiting.delivered {s : System} {done waiting : List Event} (h : Waiting s done waiting) :
    Delivered s := by
  refine ⟨?_, h.fresh, ?_⟩
  · rw [h.calls_eq, h.posted_eq]
    exact List.filter_sublist.trans (List.sublist_append_left done waiting)
  · intro hpipe hreading
    have hwaiting : waiting = [] := by simpa [hpipe, hreading] using h.bytes
    simpa [hwaiting, h.posted_eq] using h.calls_eq

/-! ## Slots -/

theorem store_of_lt {loop : EventLoop} {i : ℕ} (event : Event)
    (h : i < loop.max_custom_events_num) :
    (loop.store i event).custom_events = Function.update loop.custom_events i (some event) := by
  simp [EventLoop.store, h]

@[simp] theorem mem_pipeReadCbCalls {loop : EventLoop} {nbytes : ℕ} {call : ℕ × Event} :
    call ∈ pipeReadCbCalls loop nbytes ↔
      call.1 < nbytes ∧ loop.custom_events call.1 = some call.2 ∧ call.2.cb = true := by
  obtain ⟨i, event⟩ := call
  simp only [pipeReadCbCalls, List.mem_filterMap, List.mem_range, Option.map_eq_some_iff,
    Option.filter_eq_some_iff, Prod.mk.injEq]
  constructor
  · rintro ⟨j, hj, e, ⟨he, hcb⟩, rfl, rfl⟩
    exact ⟨hj, he, hcb⟩
  · rintro ⟨hi, he, hcb⟩
    exact ⟨i, hi, event, ⟨he, hcb⟩, rfl, rfl⟩

theorem pipeReadCbCalls_succ (loop : EventLoop) (n : ℕ) :
    (pipeReadCbCalls loop (n + 1)).map Prod.snd =
      (pipeReadCbCalls loop n).map Prod.snd ++ ((loop.custom_events n).filter Event.cb).toList := by
  simp only [pipeReadCbCalls, List.range_succ, List.filterMap_append, List.map_append]
  cases h : (loop.custom_events n).filter Event.cb <;> simp [h]

theorem pipeReadCbCalls_extend {loop : EventLoop} {m n : ℕ} (hmn : m ≤ n)
    (h : ∀ i, m ≤ i → i < n → loop.runs i = false) :
    (pipeReadCbCalls loop n).map Prod.snd = (pipeReadCbCalls loop m).map Prod.snd := by
  induction n, hmn using Nat.le_induction with
  | base => rfl
  | succ n hmn ih =>
      have hnone : (loop.custom_events n).filter Event.cb = none := by
        have hruns := h n hmn (by omega)
        cases hslot : loop.custom_events n with
        | none => rfl
        | some event => simpa [EventLoop.runs, hslot] using hruns
      rw [pipeReadCbCalls_succ, hnone, ih fun i hi hlt => h i hi (by omega)]
      simp

theorem pipeReadCbCalls_filled {loop : EventLoop} {waiting : List Event}
    (h : ∀ i (hi : i < waiting.length), loop.custom_events i = some waiting[i]) :
    (pipeReadCbCalls loop waiting.length).map Prod.snd = waiting.filter Event.cb := by
  have htake : ∀ n, n ≤ waiting.length →
      (pipeReadCbCalls loop n).map Prod.snd = (waiting.take n).filter Event.cb := by
    intro n hn
    induction n with
    | zero => simp [pipeReadCbCalls]
    | succ n ih =>
        rw [pipeReadCbCalls_succ, ih (by omega), h n (by omega), List.take_succ_eq_append_getElem
          (by omega), List.filter_append]
        cases hcb : waiting[n].cb <;> simp [Option.filter, hcb]
  simpa using htake waiting.length le_rfl

/-! ## Steps -/

section Steps

variable {s t : System} {done waiting : List Event}

theorem Waiting.post {event : Event} {nwrite : ℤ} (h : Waiting s done waiting)
    (hg : Guard s (.post event nwrite)) (hstep : s.step (.post event nwrite) = some t) :
    ∃ waiting', Waiting t done waiting' := by
  simp only [System.step, Option.some.injEq] at hstep
  subst hstep
  by_cases hw : nwrite = 1
  · have hroom := hg hw
    refine ⟨waiting ++ [event], ?_, ?_, ?_, ?_, ?_, ?_, ?_⟩
    · simp [hw, h.posted_eq]
    · exact h.calls_eq
    · exact h.fresh
    · simp [loopPostEvent, hw, h.num_eq]
    · intro i hi
      have hi' : i ≤ waiting.length := by simpa [Nat.lt_succ_iff] using hi
      simp only [loopPostEvent, hw, ne_eq, not_true_eq_false, ite_false, store_of_lt event hroom]
      rw [h.num_eq]
      rcases hi'.lt_or_eq with hlt | rfl
      · rw [Function.update_of_ne hlt.ne, h.slots i hlt, List.getElem_append_left hlt]
      · simp
    · intro i
      change i ∈ (if _ then _ else _) ↔ _
      rw [if_pos ⟨hw, hroom⟩, List.mem_cons, h.filled_iff, h.num_eq]
      simp
      omega
    · have hbytes := h.bytes
      simp [loopPostEvent, hw]
      omega
  · refine ⟨waiting, ?_, h.calls_eq, h.fresh, ?_, ?_, ?_, ?_⟩
    · simpa [hw] using h.posted_eq
    · simpa [loopPostEvent, hw] using h.num_eq
    · simpa [loopPostEvent, hw] using h.slots
    · simpa [hw] using h.filled_iff
    · simpa [loopPostEvent, hw] using h.bytes

theorem Waiting.wakeup (h : Waiting s done waiting) (hstep : s.step .wakeup = some t) :
    Waiting t done waiting := by
  simp only [System.step, Option.some.injEq] at hstep
  subst hstep
  refine ⟨h.posted_eq, h.calls_eq, h.fresh, h.num_eq, h.slots, h.filled_iff, ?_⟩
  have hbytes := h.bytes
  simp [eventLoopWakeup]
  omega

theorem Waiting.read {k : ℕ} (h : Waiting s done waiting) (hstep : s.step (.read k) = some t) :
    Waiting t done waiting := by
  simp only [System.step, Option.ite_none_right_eq_some, Option.some.injEq] at hstep
  obtain ⟨⟨hreading, -, hk⟩, rfl⟩ := hstep
  refine ⟨h.posted_eq, h.calls_eq, h.fresh, h.num_eq, h.slots, h.filled_iff, ?_⟩
  have hbytes := h.bytes
  simp only [hreading, Option.getD_none] at hbytes
  simp
  omega

/-- A guarded drain runs everything that waits, and nothing else. -/
theorem Waiting.drain (h : Waiting s done waiting) (hg : Guard s .pipeReadCb)
    (hstep : s.step .pipeReadCb = some t) : Waiting t (done ++ waiting) [] := by
  simp only [System.step, Option.map_eq_some_iff] at hstep
  obtain ⟨nbytes, hreading, rfl⟩ := hstep
  have hquiet := hg nbytes hreading
  rw [h.num_eq] at hquiet
  have hcalls : (pipeReadCbCalls s.loop nbytes).map Prod.snd = waiting.filter Event.cb := by
    rw [← pipeReadCbCalls_filled h.slots]
    rcases Nat.le_total nbytes waiting.length with hle | hle
    · exact (pipeReadCbCalls_extend hle fun i hi hlt => hquiet i (by omega) (by omega)).symm
    · exact pipeReadCbCalls_extend hle fun i hi hlt => hquiet i (by omega) (by omega)
  refine ⟨by simp [h.posted_eq], ?_, ?_, rfl, by simp, by simp, by simp⟩
  · rw [List.filter_append, ← hcalls, ← h.calls_eq]
    simp
  · intro call hcall
    rcases List.mem_append.mp hcall with hold | hnew
    · exact h.fresh call hold
    · obtain ⟨⟨i, event⟩, hmem, rfl⟩ := List.mem_map.mp hnew
      obtain ⟨hi, hslot, hcb⟩ := mem_pipeReadCbCalls.mp hmem
      -- a callback behind the filled slots is what the guard rules out
      have hlt : i < waiting.length := by
        by_contra hge
        have hruns := hquiet i (by omega) (by omega)
        rw [EventLoop.runs, hslot] at hruns
        exact absurd hcb (by simpa using hruns)
      simp [h.filled_iff, hlt]

end Steps

theorem waiting_start (malloced : ℕ → Option Event) : Waiting (System.start malloced) [] [] := by
  refine ⟨rfl, rfl, ?_, rfl, ?_, ?_, ?_⟩ <;> simp [System.start]

theorem exists_waiting_step (s : System) (a : Action) (t : System)
    (h : ∃ done waiting, Waiting s done waiting) (hg : Guard s a) (hstep : s.step a = some t) :
    ∃ done waiting, Waiting t done waiting := by
  obtain ⟨done, waiting, h⟩ := h
  cases a with
  | post event nwrite =>
      obtain ⟨waiting', h'⟩ := h.post hg hstep
      exact ⟨done, waiting', h'⟩
  | wakeup => exact ⟨done, waiting, h.wakeup hstep⟩
  | read k => exact ⟨done, waiting, h.read hstep⟩
  | pipeReadCb => exact ⟨done ++ waiting, [], h.drain hg hstep⟩

/-! ## Runs -/

/-- Whatever `malloc` left in the slots and however posts, wake-ups and drains
interleave, guarded runs deliver every event exactly once. -/
theorem delivered_along (malloced : ℕ → Option Event) (run : List Action)
    (h : Meets System.step Guard (System.start malloced) run) :
    Along System.step Delivered (System.start malloced) run := by
  refine (along_of_meets exists_waiting_step ⟨[], [], waiting_start malloced⟩ h).mono ?_
  rintro s ⟨done, waiting, hs⟩
  exact hs.delivered

/-- Two posts that one drain takes together. -/
theorem delivered_along_two :
    Along System.step Delivered (System.start fun _ => none)
      [.post ⟨1, true⟩ 1, .post ⟨2, true⟩ 1, .read 2, .pipeReadCb] := by
  apply delivered_along _ _
  rintro _ ⟨⟩
  refine ⟨fun _ => by decide, ?_⟩
  rintro _ ⟨⟩
  refine ⟨fun _ => by decide, ?_⟩
  rintro _ ⟨⟩
  refine ⟨trivial, ?_⟩
  rintro _ ⟨⟩
  refine ⟨?_, trivial⟩
  rintro nbytes hreading i hmin hmax
  obtain rfl : 2 = nbytes := Option.some.inj hreading
  change min 2 2 ≤ i at hmin
  change i < max 2 2 at hmax
  omega

/-- A post between the two halves of a drain is lost: the drain that follows it calls
the first event again instead. -/
theorem not_delivered_post_during_drain :
    ¬ Along System.step Delivered (System.start fun _ => none)
      [.post ⟨1, true⟩ 1, .read 1, .post ⟨2, true⟩ 1, .pipeReadCb, .read 1, .pipeReadCb] := by
  intro h
  have horder := (h.exec rfl).once_in_order
  revert horder
  decide

end LibConn.CustomEvents
