import LibConn.Verification.Loop.Soundness

/-! # After `io_close`

Once `io_close` has returned, nothing of the io runs any more, as long as the timers of the
io were where `io_close` looks for them, and nothing was armed on the closed io. -/

namespace LibConn.LoopThread

open LibConn.Run

variable {s t u : LoopThread} {a : LoopAction} {i x : ℕ} {kind : Timeout}
  {cbs : List IoCallback}

/-- How often `close_cb` has been called for the io. -/
def closeCalls (s : LoopThread) (i : ℕ) : ℕ :=
  s.calls.countP fun call => call.1 = i ∧ call.2.1 = .close

/-- Nothing is left of the io, and its `close_cb` has been called once if it is set. -/
structure Ended (s : LoopThread) (i : ℕ) : Prop where
  close_cb : s.closeCalls i = (s.conn i).closeCalls
  timers : ∀ x, (s.loop.timer x).privdata = some i →
    x ∉ s.loop.timers.array ∧ .timer x ∉ s.waiting
  events : (s.io i).events = 0

/-- Each io whose `io_close` has returned is over, and no callback has run since. -/
def Silent (s : LoopThread) : Prop :=
  ∀ i ∈ s.returned, Ended s i ∧ ∀ cb, (i, cb, true) ∉ s.calls

/-- The timers of the io are where `io_close` looks for them: none waits, and each one in the
heap is there once and belongs to one of the four timeouts. -/
def Collected (s : LoopThread) (waiting : List LoopEvent) (i : ℕ) : Prop :=
  ∀ x, (s.loop.timer x).privdata = some i →
    .timer x ∉ waiting ∧ s.loop.timers.array.count x ≤ 1 ∧
      (x ∈ s.loop.timers.array → ∃ kind, (s.io i).timer kind = some x)

/-- The step arms nothing on a closed io, and an io that it closes has its timers collected,
with none of them behind the event at hand. -/
def CloseGuard (s : LoopThread) (a : LoopAction) : Prop :=
  s.SparesClosed a ∧ ∀ i ∈ s.ios, (s.io i).closed = false →
    ∀ t, s.step a = some t → (t.io i).closed = true → s.Collected (s.behind a) i

/-! ## The invariant -/

/-- What holds of all ios, the names in use, and the callbacks so far. -/
structure Tidy (s : LoopThread) : Prop where
  knows : ∀ i, s.Knows i → i ∈ s.ios
  timers : ∀ x i, x ∈ s.loop.timers.array ∨ .timer x ∈ s.waiting →
    (s.loop.timer x).privdata = some i → i ∈ s.ios
  calls : ∀ call ∈ s.calls, call.1 ∈ s.ios ∧ call.2.2 = false
  returned : ∀ i ∈ s.returned, i ∈ s.ios ∧ (s.io i).closed = true
  closing : ∀ i, .closed i ∈ s.stack → (s.io i).closed = true
  narrow : ∀ i ∈ s.ios, Narrow (s.io i).events
  before : ∀ i ∈ s.ios, (s.io i).closed = false → s.closeCalls i = 0
  ended : ∀ i ∈ s.ios, (s.io i).closed = true → Ended s i

theorem Tidy.silent (h : Tidy s) : Silent s := by
  intro i hi
  obtain ⟨hios, hclosed⟩ := h.returned i hi
  refine ⟨h.ended i hios hclosed, fun cb hmem => ?_⟩
  exact Bool.false_ne_true (h.calls _ hmem).2.symm

theorem Tidy.start (loop : Loop) (io : ℕ → LoopIo) (hheap : loop.timers.array = []) :
    Tidy (start loop io) := by
  refine ⟨?_, ?_, ?_, ?_, ?_, ?_, ?_, ?_⟩
  · rintro i (hi | hi | ⟨frame, hframe, -⟩)
    · exact hi
    · exact absurd hi List.not_mem_nil
    · exact absurd hframe List.not_mem_nil
  · rintro x i (hx | hx)
    · exact absurd (hheap ▸ hx) List.not_mem_nil
    · exact absurd hx List.not_mem_nil
  · exact fun call hcall => absurd hcall List.not_mem_nil
  · exact fun i hi => absurd hi (Finset.notMem_empty i)
  · exact fun i hi => absurd hi List.not_mem_nil
  all_goals exact fun i hi => absurd hi (Finset.notMem_empty i)

/-! ## Steps that touch no io -/

/-- The timers of ios that count in `t` counted in `s`, and the ios are as they were. -/
structure Calm (s t : LoopThread) : Prop where
  ios : t.ios = s.ios
  closed : ∀ i, (t.io i).closed = (s.io i).closed
  close_cb : ∀ i ∈ s.ios, (s.io i).closed = true → (t.io i).close_cb = (s.io i).close_cb
  events : ∀ i, (t.io i).events = (s.io i).events
  returned : t.returned = s.returned
  calls : t.calls = s.calls
  waiting : ∀ i, .io i ∈ t.waiting → i ∈ s.ios
  timers : ∀ x i, (t.loop.timer x).privdata = some i →
    x ∈ t.loop.timers.array ∨ .timer x ∈ t.waiting →
      (s.loop.timer x).privdata = some i ∧ (x ∈ s.loop.timers.array ∨ .timer x ∈ s.waiting)
  stack : ∀ frame ∈ t.stack, frame ∈ s.stack ∨ frame.io = none ∨
    ∃ i ∈ s.ios, frame = .done (.io i)

theorem Tidy.calm (h : Tidy s) (hcalm : Calm s t) : Tidy t := by
  have hcalls : ∀ i, t.closeCalls i = s.closeCalls i := fun i => by
    rw [closeCalls, hcalm.calls, closeCalls]
  refine ⟨?_, ?_, ?_, ?_, ?_, ?_, ?_, ?_⟩
  · rintro i (hi | hi | ⟨frame, hframe, hio⟩)
    · exact hi
    · exact hcalm.ios ▸ hcalm.waiting i hi
    · rw [hcalm.ios]
      rcases hcalm.stack frame hframe with hold | hnone | ⟨j, hj, rfl⟩
      · exact h.knows i (.inr (.inr ⟨frame, hold, hio⟩))
      · exact absurd (hnone.symm.trans hio) (Option.some_ne_none i).symm
      · exact Option.some.inj hio ▸ hj
  · intro x i hx hprivdata
    obtain ⟨hprivdata', hx'⟩ := hcalm.timers x i hprivdata hx
    exact hcalm.ios ▸ h.timers x i hx' hprivdata'
  · intro call hcall
    rw [hcalm.ios]
    exact h.calls call (hcalm.calls ▸ hcall)
  · intro i hi
    rw [hcalm.ios, hcalm.closed]
    exact h.returned i (hcalm.returned ▸ hi)
  · intro i hi
    rw [hcalm.closed]
    rcases hcalm.stack _ hi with hold | hnone | ⟨j, -, heq⟩
    · exact h.closing i hold
    · exact absurd hnone (Option.some_ne_none i)
    · cases heq
  · intro i hi
    rw [hcalm.events]
    exact h.narrow i (hcalm.ios ▸ hi)
  · intro i hi hopen
    rw [hcalls]
    exact h.before i (hcalm.ios ▸ hi) (hcalm.closed i ▸ hopen)
  · intro i hi hclosed
    have hi' : i ∈ s.ios := hcalm.ios ▸ hi
    have hclosed' : (s.io i).closed = true := hcalm.closed i ▸ hclosed
    have hended := h.ended i hi' hclosed'
    have hsame : (t.conn i).io.close_cb = (s.conn i).io.close_cb := hcalm.close_cb i hi' hclosed'
    refine ⟨?_, fun x hx => ?_, (hcalm.events i).trans hended.events⟩
    · rw [hcalls, hended.close_cb, Conn.closeCalls, Conn.closeCalls, hsame]
    · by_contra hmem
      have hx' : x ∈ t.loop.timers.array ∨ .timer x ∈ t.waiting := by
        by_contra hnot
        exact hmem ⟨fun hin => hnot (.inl hin), fun hin => hnot (.inr hin)⟩
      obtain ⟨hprivdata, hold | hold⟩ := hcalm.timers x i hx hx'
      · exact (hended.timers x hprivdata).1 hold
      · exact (hended.timers x hprivdata).2 hold

theorem privdata_update {loop : Loop} {timer : Timer}
    (hmemory : loop.timer = Function.update s.loop.timer x timer)
    (howner : timer.privdata = (s.loop.timer x).privdata) (y : ℕ) :
    (loop.timer y).privdata = (s.loop.timer y).privdata := by
  rw [hmemory]
  rcases eq_or_ne y x with rfl | hne
  · rw [Function.update_self, howner]
  · rw [Function.update_of_ne hne]

section Calm

variable (h : Tidy s)
include h

theorem Enters.calm (henters : Enters s u) : Calm s u := by
  refine ⟨henters.ios, fun i => by rw [henters.io], fun i _ _ => by rw [henters.io],
    fun i => by rw [henters.io], henters.returned, henters.calls, ?_, ?_, ?_⟩
  · exact fun i hi => h.knows i (.inr (.inl (henters.sublist.mem hi)))
  · intro x i hprivdata hx
    rw [henters.memory] at hprivdata
    rw [henters.heap] at hx
    exact ⟨hprivdata, hx.imp id henters.sublist.mem⟩
  · intro frame hframe
    rcases henters.stack frame hframe with hold | ⟨i, heq, hwaiting⟩
    · exact .inl hold
    · have hi : .io i ∈ s.waiting := hwaiting ▸ List.mem_cons_self
      exact .inr (.inr ⟨i, h.knows i (.inr (.inl hi)), heq⟩)

theorem Calm.loop {loop : Loop} {waiting : List LoopEvent} {expiring : Bool} {stack : List Frame}
    (hwaiting : ∀ i, .io i ∈ waiting → .io i ∈ s.waiting)
    (htimers : ∀ x i, (loop.timer x).privdata = some i →
      x ∈ loop.timers.array ∨ .timer x ∈ waiting →
        (s.loop.timer x).privdata = some i ∧ (x ∈ s.loop.timers.array ∨ .timer x ∈ s.waiting))
    (hstack : ∀ frame ∈ stack, frame ∈ s.stack ∨ frame.io = none) :
    Calm s { s with loop := loop, waiting := waiting, expiring := expiring, stack := stack } :=
  ⟨rfl, fun _ => rfl, fun _ _ _ => rfl, fun _ => rfl, rfl, rfl,
    fun i hi => h.knows i (.inr (.inl (hwaiting i hi))), htimers,
    fun frame hframe => (hstack frame hframe).imp id .inl⟩

theorem Calm.grows {loop : Loop} (hgrows : Grows x s.loop loop) :
    Calm s { s with loop := loop } := by
  obtain ⟨timer, hnone, hmemory⟩ := hgrows.memory
  refine Calm.loop h (fun _ hi => hi) (fun y i hprivdata hy => ?_) fun _ hframe => .inl hframe
  rcases eq_or_ne y x with rfl | hne
  · rw [hmemory, Function.update_self, hnone] at hprivdata
    exact absurd hprivdata (Option.some_ne_none i).symm
  · rw [hmemory, Function.update_of_ne hne] at hprivdata
    refine ⟨hprivdata, hy.imp (fun hmem => ?_) id⟩
    exact (hgrows.heap y hmem).resolve_left hne

theorem Calm.expires {loop : Loop} (hexpires : Expires x s.loop loop) :
    Calm s { s with
      loop := loop
      waiting := if (s.loop.timer x).pending then s.waiting else .timer x :: s.waiting
      expiring := true } := by
  obtain ⟨timer, howner, -, hmemory⟩ := hexpires.memory
  obtain ⟨rest, harray⟩ := List.head?_eq_some_iff.mp hexpires.top
  refine Calm.loop h (fun i hi => ?_) (fun y i hprivdata hy => ?_) fun _ hframe => .inl hframe
  · split_ifs at hi
    · exact hi
    · exact (List.mem_cons.mp hi).resolve_left (by simp)
  · rw [privdata_update hmemory howner.privdata] at hprivdata
    refine ⟨hprivdata, ?_⟩
    rcases hy with hy | hy
    · exact .inl (List.count_pos_iff.mp ((List.count_pos_iff.mpr hy).trans_le
        (hexpires.count_le y)))
    · split_ifs at hy
      · exact .inr hy
      · rcases List.mem_cons.mp hy with heq | hy
        · rw [LoopEvent.timer.inj heq, harray]
          exact .inl List.mem_cons_self
        · exact .inr hy

theorem Calm.repeats {loop : Loop} (hrepeats : Repeats x s.loop loop) :
    Calm s { s with loop := loop, expiring := true } := by
  obtain ⟨timer, howner, -, -, -, hmemory⟩ := hrepeats.memory
  refine Calm.loop h (fun _ hi => hi) (fun y i hprivdata hy => ?_) fun _ hframe => .inl hframe
  rw [privdata_update hmemory howner.privdata] at hprivdata
  exact ⟨hprivdata, hy.imp (fun hy => List.count_pos_iff.mp
    ((List.count_pos_iff.mpr hy).trans_le (hrepeats.count_le y))) id⟩

theorem Calm.finishes {rest : List Frame} (hstack : s.stack = .done (.timer x) :: rest) :
    Calm s { s with stack := rest, loop := pendingDone s.loop x } := by
  obtain ⟨timer, hmemory, howner, -⟩ := pendingDone_memory s.loop x
  refine Calm.loop h (fun _ hi => hi) (fun y i hy hmem => ?_) fun frame hframe => .inl ?_
  · rw [privdata_update hmemory howner] at hy
    rw [pendingDone_heap] at hmem
    exact ⟨hy, hmem⟩
  · exact hstack ▸ List.mem_cons_of_mem _ hframe

theorem Calm.visits {rest : List LoopEvent} (hwaiting : s.waiting = .timer x :: rest) :
    Calm s ({ s with waiting := rest }.push [.done (.timer x)]) := by
  refine Calm.loop h (fun i hi => hwaiting ▸ List.mem_cons_of_mem _ hi)
    (fun y i hy hmem => ⟨hy, ?_⟩) fun frame hframe => ?_
  · exact hmem.imp id fun hmem => hwaiting ▸ List.mem_cons_of_mem _ hmem
  · rcases List.mem_cons.mp hframe with rfl | hold
    · exact .inr rfl
    · exact .inl hold

theorem Calm.user (hst : t = s ∨ t = s.push [.user none]) : Calm s t := by
  rcases hst with rfl | rfl
  · exact Calm.loop h (fun _ hi => hi) (fun y i hy hmem => ⟨hy, hmem⟩) fun _ hframe => .inl hframe
  · refine Calm.loop h (fun _ hi => hi) (fun y i hy hmem => ⟨hy, hmem⟩) fun frame hframe => ?_
    rcases List.mem_cons.mp hframe with rfl | hold
    · exact .inr rfl
    · exact .inl hold

theorem Calm.shrinks {loop : Loop} (hmemory : loop.timer = s.loop.timer)
    (hheap : ∀ x ∈ loop.timers.array, x ∈ s.loop.timers.array) :
    Calm s { s with loop := loop } := by
  refine Calm.loop h (fun _ hi => hi) (fun y i hy hmem => ?_) fun _ hframe => .inl hframe
  rw [hmemory] at hy
  exact ⟨hy, hmem.imp (hheap y) id⟩

theorem Calm.dispatches (hi : i ∈ s.ios) (revents : Mask) : Calm s (s.dispatch i revents) := by
  have hio : ∀ j, ((s.dispatch i revents).io j).toIo = (s.io j).toIo := by
    intro j
    rcases eq_or_ne j i with rfl | hne
    · simp [dispatch, setIo]
    · simp [dispatch, setIo, hne]
  have hwaiting : ∀ e ∈ (s.dispatch i revents).waiting, e = .io i ∨ e ∈ s.waiting := by
    intro e he
    simp only [dispatch] at he
    split_ifs at he
    · exact .inr he
    · exact List.mem_cons.mp he
  refine ⟨rfl, fun j => by rw [hio], fun j _ _ => by rw [hio], fun j => by rw [hio], rfl, rfl,
    ?_, ?_, fun _ hframe => .inl hframe⟩
  · intro j hj
    rcases hwaiting _ hj with heq | hold
    · exact LoopEvent.io.inj heq ▸ hi
    · exact h.knows j (.inr (.inl hold))
  · exact fun y j hy hmem => ⟨hy, hmem.imp id fun hmem => (hwaiting _ hmem).resolve_left (by simp)⟩

theorem Calm.sets {settings : IoSettings}
    (hclose_cb : (s.io i).closed = true → settings.close_cb = (s.io i).close_cb) :
    Calm s (s.setIo i ((s.io i).set settings)) := by
  refine ⟨rfl, fun j => ?_, fun j _ hclosed => ?_, fun j => ?_, rfl, rfl,
    fun j hj => h.knows j (.inr (.inl hj)), fun y j hy hmem => ⟨hy, hmem⟩,
    fun _ hframe => .inl hframe⟩
  all_goals rcases eq_or_ne j i with rfl | hne
  all_goals simp only [setIo, ne_eq, Function.update_self, Function.update_of_ne, *,
    not_false_eq_true]
  all_goals simp [LoopIo.set, *]

end Calm

/-! ## Steps that handle one io -/

theorem Touches.closeCalls_self (h : Touches i cbs s t) :
    t.closeCalls i = s.closeCalls i + cbs.count .close := by
  rw [closeCalls, h.calls, List.countP_append, List.countP_map, List.count, closeCalls]
  congr 1
  refine List.countP_congr fun cb _ => ?_
  simp

theorem Touches.closeCalls_other (h : Touches i cbs s t) {j : ℕ} (hj : j ≠ i) :
    t.closeCalls j = s.closeCalls j := by
  rw [closeCalls, h.calls, List.countP_append, List.countP_map, closeCalls]
  have hzero : cbs.countP ((fun call : ℕ × IoCallback × Bool => decide (call.1 = j ∧
      call.2.1 = .close)) ∘ fun cb => (i, cb, decide (i ∈ s.returned))) = 0 := by
    rw [List.countP_eq_zero]
    intro cb _
    simp [hj.symm]
  rw [hzero, Nat.add_zero]

theorem Touches.closed_mono (h : Touches i cbs s t) (j : ℕ) (hclosed : (s.io j).closed = true) :
    (t.io j).closed = true := by
  rcases eq_or_ne j i with rfl | hne
  · exact h.mono hclosed
  · rw [h.others j hne]
    exact hclosed

theorem Tidy.touches (h : Tidy s) (hi : i ∈ s.ios) (htouches : Touches i cbs s t)
    (hcalls : cbs = [] ∨ (s.io i).closed = false)
    (hstranger : ∀ x j, (t.loop.timer x).privdata = some j → j ≠ i →
      (s.loop.timer x).privdata = some j ∧
        (x ∈ t.loop.timers.array → x ∈ s.loop.timers.array))
    (hnarrow : Narrow (t.io i).events)
    (hbefore : (t.io i).closed = false → t.closeCalls i = 0)
    (hended : (t.io i).closed = true → Ended t i) : Tidy t := by
  obtain ⟨frames, hstack, hframes⟩ := htouches.stack
  refine ⟨?_, ?_, ?_, ?_, ?_, ?_, ?_, ?_⟩
  · rintro j (hj | hj | ⟨frame, hframe, hio⟩)
    · exact hj
    · rw [htouches.waiting] at hj
      exact htouches.ios ▸ h.knows j (.inr (.inl hj))
    · rw [htouches.ios]
      rw [hstack] at hframe
      rcases List.mem_append.mp hframe with hnew | hold
      · rcases (hframes frame hnew).1.io_eq with hnone | hsome
        · exact absurd (hnone.symm.trans hio) (Option.some_ne_none j).symm
        · exact Option.some.inj (hsome.symm.trans hio) ▸ hi
      · exact h.knows j (.inr (.inr ⟨frame, hold, hio⟩))
  · intro x j hx hprivdata
    rw [htouches.ios]
    rcases eq_or_ne j i with rfl | hne
    · exact hi
    · obtain ⟨hprivdata', hheap⟩ := hstranger x j hprivdata hne
      rw [htouches.waiting] at hx
      exact h.timers x j (hx.imp hheap id) hprivdata'
  · intro call hcall
    rw [htouches.calls] at hcall
    rw [htouches.ios]
    rcases List.mem_append.mp hcall with hold | hnew
    · exact h.calls call hold
    · obtain ⟨cb, hcb, rfl⟩ := List.mem_map.mp hnew
      rcases hcalls with rfl | hopen
      · exact absurd hcb List.not_mem_nil
      · refine ⟨hi, decide_eq_false fun hreturned => ?_⟩
        exact absurd (hopen.symm.trans (h.returned i hreturned).2) (by decide)
  · intro j hj
    rw [htouches.ios]
    have hold : j ∈ s.returned → j ∈ s.ios ∧ (t.io j).closed = true := fun hj =>
      ⟨(h.returned j hj).1, htouches.closed_mono j (h.returned j hj).2⟩
    rw [htouches.returned] at hj
    split_ifs at hj with hcond
    · rcases Finset.mem_insert.mp hj with rfl | hj
      · exact ⟨hi, (Bool.and_eq_true_iff.mp (Bool.and_eq_true_iff.mp hcond).1).1⟩
      · exact hold hj
    · exact hold hj
  · intro j hj
    rw [hstack] at hj
    rcases List.mem_append.mp hj with hnew | hold
    · obtain ⟨hof, hclosed⟩ := hframes _ hnew
      obtain rfl : j = i := hof
      exact hclosed rfl
    · exact htouches.closed_mono j (h.closing j hold)
  · intro j hj
    rw [htouches.ios] at hj
    rcases eq_or_ne j i with rfl | hne
    · exact hnarrow
    · rw [htouches.others j hne]
      exact h.narrow j hj
  · intro j hj hopen
    rw [htouches.ios] at hj
    rcases eq_or_ne j i with rfl | hne
    · exact hbefore hopen
    · rw [htouches.others j hne] at hopen
      rw [htouches.closeCalls_other hne]
      exact h.before j hj hopen
  · intro j hj hclosed
    rw [htouches.ios] at hj
    rcases eq_or_ne j i with rfl | hne
    · exact hended hclosed
    · rw [htouches.others j hne] at hclosed
      have hold := h.ended j hj hclosed
      refine ⟨?_, fun x hx => ?_, ?_⟩
      · rw [htouches.closeCalls_other hne, hold.close_cb, Conn.closeCalls, Conn.closeCalls, conn,
          conn, htouches.others j hne]
      · obtain ⟨hprivdata, hheap⟩ := hstranger x j hx hne
        rw [htouches.waiting]
        exact (hold.timers x hprivdata).imp (fun hnot hmem => hnot (hheap hmem)) id
      · rw [htouches.others j hne]
        exact hold.events

theorem Tidy.drowses (h : Tidy s) (hi : i ∈ s.ios) (hclosed : (s.io i).closed = true)
    (hdrowses : Drowses i s t) : Tidy t := by
  have hended := h.ended i hi hclosed
  refine h.touches hi hdrowses.toTouches (.inl rfl) (fun x j hx _ => ?_) (.inl hdrowses.events)
    (fun hopen => absurd (hdrowses.closed.symm.trans hopen) (by decide)) fun _ => ⟨?_, ?_, ?_⟩
  · rw [hdrowses.memory] at hx
    exact ⟨hx, hdrowses.heap x⟩
  · rw [hdrowses.toTouches.closeCalls_self, List.count_nil, Nat.add_zero, hended.close_cb,
      Conn.closeCalls, Conn.closeCalls]
    exact if_congr (by rw [conn, conn, hdrowses.close_cb]) rfl rfl
  · intro x hx
    rw [hdrowses.memory] at hx
    rw [hdrowses.waiting]
    exact (hended.timers x hx).imp (fun hnot hmem => hnot (hdrowses.heap x hmem)) id
  · exact hdrowses.events

theorem Acts.stranger (hacts : Acts i cbs s t)
    (hslots : ∀ kind y, (s.io i).timer kind = some y → (s.loop.timer y).privdata = some i) (x : ℕ)
    {j : ℕ} (hx : (t.loop.timer x).privdata = some j) (hj : j ≠ i) :
    (s.loop.timer x).privdata = some j ∧
      (x ∈ t.loop.timers.array → x ∈ s.loop.timers.array) := by
  cases hacts.change with
  | ends hends =>
      cases hends with
      | keeps hkept =>
          have hmemory : t.loop.timer = s.loop.timer := hkept.memory
          have hheap : t.loop.timers = s.loop.timers := hkept.heap
          rw [hmemory] at hx
          rw [hheap]
          exact ⟨hx, id⟩
      | shuts hshut =>
          have hmemory : t.loop.timer = s.loop.timer := hshut.memory
          rw [hmemory] at hx
          exact ⟨hx, fun hmem => List.count_pos_iff.mp ((List.count_pos_iff.mpr hmem).trans_le
            (hshut.count_le x))⟩
  | resets y howns hio hreset =>
      obtain ⟨next_timeout, hmemory⟩ := hreset.memory
      have hmemory' : t.loop.timer =
          Function.update s.loop.timer y ((s.loop.timer y).reset next_timeout) := hmemory
      rw [privdata_update hmemory' rfl] at hx
      refine ⟨hx, fun hmem => (hreset.heap x hmem).resolve_left ?_⟩
      rintro rfl
      have howner : (s.loop.timer x).privdata = some i := by
        rcases howns with ⟨kind, hslot⟩ | howner
        · exact hslots kind x hslot
        · exact howner
      exact hj (Option.some.inj (hx.symm.trans howner))
  | arms kind y harms =>
      obtain ⟨timer, harmed, hmemory⟩ := harms.memory
      have hmemory' : t.loop.timer = Function.update s.loop.timer y timer := hmemory
      rcases eq_or_ne x y with rfl | hne
      · rw [hmemory', Function.update_self, harmed.privdata] at hx
        exact absurd (Option.some.inj hx).symm hj
      · rw [hmemory', Function.update_of_ne hne] at hx
        exact ⟨hx, fun hmem => (harms.heap x hmem).resolve_left hne⟩
  | disarms kind hkind hdisarms =>
      have hmemory : t.loop.timer = s.loop.timer := hdisarms.memory
      rw [hmemory] at hx
      exact ⟨hx, hdisarms.heap x⟩

theorem Acts.open_or_shuts (hacts : Acts i cbs s t) (hopen : (s.io i).closed = false) :
    ((t.io i).closed = false ∧ cbs.count .close = 0 ∧
        (Narrow (s.io i).events → Narrow (t.io i).events)) ∨
      (Shut (s.conn i) (t.conn i) ∧ cbs.count .close = (s.conn i).closeCalls) := by
  cases hacts.change with
  | ends hends =>
      cases hends with
      | keeps hkept hcloses => exact .inl ⟨hkept.closed.trans hopen, hcloses, hkept.narrow⟩
      | shuts hshut hcloses => exact .inr ⟨hshut, hcloses⟩
  | resets y howns hio hreset hcloses =>
      exact .inl ⟨hio.closed.trans hopen, hcloses, hio.narrow⟩
  | arms kind y harms hcloses =>
      exact .inl ⟨harms.closed.trans hopen, hcloses, harms.narrow⟩
  | disarms kind hkind hdisarms hcloses =>
      have hevents : (t.io i).events = (s.io i).events := hdisarms.events
      exact .inl ⟨hdisarms.closed.trans hopen, hcloses, fun hn => hevents ▸ hn⟩

theorem Tidy.acts {exempt : Option ℕ} (h : Tidy s) (hsound : Sound exempt s) (hi : i ∈ s.ios)
    (hopen : (s.io i).closed = false) (hacts : Acts i cbs s t)
    (hready : (t.io i).closed = true → s.Collected s.waiting i) : Tidy t := by
  have hstranger := hacts.stranger fun kind y hslot =>
    (hsound.slots i hi hopen kind y hslot).privdata
  have hself := hacts.toTouches.closeCalls_self
  rw [h.before i hi hopen, zero_add] at hself
  rcases hacts.open_or_shuts hopen with ⟨hstays, hcloses, hnarrow⟩ | ⟨hshut, hcloses⟩
  · refine h.touches hi hacts.toTouches (.inr hopen) (fun x j => hstranger x)
      (hnarrow (h.narrow i hi)) (fun _ => hself.trans hcloses) fun hclosed => ?_
    exact absurd (hstays.symm.trans hclosed) (by decide)
  · have hclosed : (t.io i).closed = true := hshut.closed
    have hevents : (t.io i).events = 0 := hshut.quiet (h.narrow i hi)
    refine h.touches hi hacts.toTouches (.inr hopen) (fun x j => hstranger x) (.inl hevents)
      (fun hnot => absurd (hclosed.symm.trans hnot) (by decide)) fun _ => ⟨?_, ?_, hevents⟩
    · rw [hself, hcloses, Conn.closeCalls, Conn.closeCalls, hshut.close_cb]
    · intro x hx
      have hmemory : t.loop.timer = s.loop.timer := hshut.memory
      rw [hmemory] at hx
      obtain ⟨hwaiting, hcount, hslot⟩ := hready hclosed x hx
      rw [hacts.waiting]
      refine ⟨fun hmem => ?_, hwaiting⟩
      -- what was in the heap was there once, and `io_close` has removed it
      have hpos : 0 < t.loop.timers.array.count x := List.count_pos_iff.mpr hmem
      have hle : t.loop.timers.array.count x ≤ s.loop.timers.array.count x := hshut.count_le x
      obtain ⟨kind, hkind⟩ := hslot (List.count_pos_iff.mp (hpos.trans_le hle))
      have htaken : t.loop.timers.array.count x ≤ s.loop.timers.array.count x - 1 :=
        hshut.taken kind x hkind
      omega

theorem Tidy.call (h : Tidy s) (hi : i ∈ s.ios) (hopen : (s.io i).closed = false)
    (kind : Timeout) : Tidy (s.call i (.timeout kind)) := by
  have htouches := Touches.call s i (.timeout kind)
  refine h.touches hi htouches (.inr hopen) (fun x j hx _ => ⟨hx, id⟩) (h.narrow i hi)
    (fun _ => ?_) fun hclosed => absurd (hopen.symm.trans hclosed) (by decide)
  rw [htouches.closeCalls_self, h.before i hi hopen]
  rfl

theorem Tidy.create (h : Tidy s) (hnew : i ∉ s.ios) (fd : ℤ) (malloced : ℕ → UInt8)
    (settings : IoSettings) : Tidy (s.create i (.new fd malloced settings)) := by
  have hother : ∀ j ∈ s.ios, (s.create i (.new fd malloced settings)).io j = s.io j := by
    intro j hj
    have hne : j ≠ i := fun heq => hnew (heq ▸ hj)
    simp [LoopThread.create, setIo, hne]
  have hself : (s.create i (.new fd malloced settings)).io i = .new fd malloced settings := by
    simp [LoopThread.create, setIo]
  have hcases : ∀ j ∈ (s.create i (.new fd malloced settings)).ios, j = i ∨ j ∈ s.ios :=
    fun j hj => Finset.mem_insert.mp hj
  refine ⟨?_, ?_, ?_, ?_, ?_, ?_, ?_, ?_⟩
  · rintro j (hj | hj | hj)
    · exact hj
    · exact Finset.mem_insert_of_mem (h.knows j (.inr (.inl hj)))
    · exact Finset.mem_insert_of_mem (h.knows j (.inr (.inr hj)))
  · exact fun x j hx hprivdata => Finset.mem_insert_of_mem (h.timers x j hx hprivdata)
  · exact fun call hcall =>
      ⟨Finset.mem_insert_of_mem (h.calls call hcall).1, (h.calls call hcall).2⟩
  · intro j hj
    obtain ⟨hios, hclosed⟩ := h.returned j hj
    rw [hother j hios]
    exact ⟨Finset.mem_insert_of_mem hios, hclosed⟩
  · intro j hj
    rw [hother j (h.knows j (.inr (.inr ⟨_, hj, rfl⟩)))]
    exact h.closing j hj
  · intro j hj
    rcases hcases j hj with rfl | hold
    · rw [hself]
      exact .inl rfl
    · rw [hother j hold]
      exact h.narrow j hold
  · intro j hj hopen
    rcases hcases j hj with rfl | hold
    · refine List.countP_eq_zero.mpr fun call hcall hmatch => ?_
      have hj : call.1 = j := (of_decide_eq_true hmatch).1
      exact hnew (hj ▸ (h.calls call hcall).1)
    · rw [hother j hold] at hopen
      exact h.before j hold hopen
  · intro j hj hclosed
    rcases hcases j hj with rfl | hold
    · rw [hself] at hclosed
      exact absurd hclosed Bool.false_ne_true
    · rw [hother j hold] at hclosed
      have hended := h.ended j hold hclosed
      refine ⟨?_, hended.timers, by rw [hother j hold, hended.events]⟩
      rw [conn, hother j hold]
      exact hended.close_cb

/-- Nothing refers to an io that there is not yet. -/
theorem Tidy.collected (h : Tidy s) (hnew : i ∉ s.ios) : s.Collected s.waiting i := by
  intro x hx
  have hheap : x ∉ s.loop.timers.array := fun hmem => hnew (h.timers x i (.inl hmem) hx)
  refine ⟨fun hmem => hnew (h.timers x i (.inr hmem) hx), ?_, fun hmem => absurd hmem hheap⟩
  rw [List.count_eq_zero.mpr hheap]
  exact Nat.zero_le 1

theorem Tidy.returns {rest : List Frame} (h : Tidy s) (hstack : s.stack = .closed i :: rest) :
    Tidy { s with stack := rest, returned := insert i s.returned } := by
  have hmem : .closed i ∈ s.stack := hstack ▸ List.mem_cons_self
  have hsub : ∀ frame ∈ rest, frame ∈ s.stack := fun frame hframe =>
    hstack ▸ List.mem_cons_of_mem _ hframe
  refine ⟨?_, h.timers, h.calls, fun j hj => ?_, fun j hj => h.closing j (hsub _ hj), h.narrow,
    h.before, fun j hj hclosed => ?_⟩
  · rintro j (hj | hj | ⟨frame, hframe, hio⟩)
    · exact hj
    · exact h.knows j (.inr (.inl hj))
    · exact h.knows j (.inr (.inr ⟨frame, hsub frame hframe, hio⟩))
  · rcases Finset.mem_insert.mp hj with rfl | hold
    · exact ⟨h.knows j (.inr (.inr ⟨_, hmem, rfl⟩)), h.closing j hmem⟩
    · exact h.returned j hold
  · have hended := h.ended j hj hclosed
    exact { hended with }

theorem Tidy.owner_open (h : Tidy s) (hx : x ∈ s.loop.timers.array ∨ .timer x ∈ s.waiting)
    (hprivdata : (s.loop.timer x).privdata = some i) : i ∈ s.ios ∧ (s.io i).closed = false := by
  have hi := h.timers x i hx hprivdata
  refine ⟨hi, ?_⟩
  by_contra hclosed
  obtain ⟨hheap, hwaiting⟩ := (h.ended i hi (by simpa using hclosed)).timers x hprivdata
  exact hx.elim hheap hwaiting

theorem Tidy.fires {exempt : Option ℕ} (h : Tidy s) (hsound : Sound exempt s)
    (hopen : ∀ i, (s.loop.timer x).privdata = some i → i ∈ s.ios ∧ (s.io i).closed = false)
    (hready : ∀ i ∈ s.ios, (s.io i).closed = false → (t.io i).closed = true →
      s.Collected s.waiting i)
    (hfires : Fires x s t) : Tidy t := by
  cases hfires with
  | user hcb hst => exact h.calm (Calm.user h hst)
  | io i kind cbs hprivdata hcb hacts hends =>
      obtain ⟨hi, hio⟩ := hopen i hprivdata
      exact (h.call hi hio kind).acts (hsound.call i _) hi hio hacts (hready i hi hio)

/-! ## Runs -/

theorem tidy_step (h : Tidy s) (hsound : Sound none s) (hguard : CloseGuard s a)
    (hstep : s.step a = some t) : Tidy t := by
  have hready : ∀ i ∈ s.ios, (s.io i).closed = false → (t.io i).closed = true →
      s.Collected (s.behind a) i := fun i hi hopen hclosed => hguard.2 i hi hopen t hstep hclosed
  cases step_turn hstep with
  | enters henters => exact h.calm (henters.calm h)
  | @acts u _ i cbs hknown henters hbehind hacts hasleep =>
      have hu : Tidy u := h.calm (henters.calm h)
      have hi : i ∈ s.ios := h.knows i hknown
      have hi' : i ∈ u.ios := henters.ios ▸ hi
      cases hclosed : (u.io i).closed with
      | true =>
          have hevents := (hu.ended i hi' hclosed).events
          exact hu.drowses hi' hclosed (hasleep hguard.1 ⟨hclosed, hevents⟩)
      | false =>
          refine hu.acts (hsound.enters henters) hi' hclosed hacts fun hend => ?_
          rw [Collected, henters.memory, henters.heap, henters.io, hbehind]
          exact hready i hi (henters.io ▸ hclosed) hend
  | @creates u _ i fd malloced settings cbs hnew henters hacts =>
      have hu : Tidy u := h.calm (henters.calm h)
      have hnew' : i ∉ u.ios := henters.ios ▸ hnew
      have hcreated := hu.create hnew' fd malloced settings
      refine hcreated.acts ((hsound.enters henters).create hnew' fd malloced settings)
        (Finset.mem_insert_self _ _) (by simp [create, setIo, LoopIo.new, LoopIo.set, getIo]) hacts
        fun _ => ?_
      intro x hx
      obtain ⟨hwaiting, hcount, hheap⟩ := hu.collected hnew' x hx
      refine ⟨hwaiting, hcount, fun hmem => ?_⟩
      exact absurd (hu.timers x i (.inl hmem) hx) hnew'
  | sets i settings hi hspares => exact h.calm (Calm.sets h (hspares hguard.1))
  | returns i rest hstack => exact h.returns hstack
  | dispatches i revents hi => exact h.calm (Calm.dispatches h hi revents)
  | grows x loop hgrows => exact h.calm (Calm.grows h hgrows)
  | shrinks loop hmemory hheap => exact h.calm (Calm.shrinks h hmemory hheap)
  | expires x loop ha hidle hallocated hexpires => exact h.calm (Calm.expires h hexpires)
  | repeats x loop ha hidle hallocated hrepeats hfires =>
      subst ha
      obtain ⟨timer, howner, -, -, -, hmemory⟩ := hrepeats.memory
      have hprivdata := privdata_update hmemory howner.privdata
      have hle : ∀ y, y ∈ loop.timers.array → y ∈ s.loop.timers.array := fun y hy =>
        List.count_pos_iff.mp ((List.count_pos_iff.mpr hy).trans_le (hrepeats.count_le y))
      have htop : x ∈ s.loop.timers.array := List.mem_of_mem_head? hrepeats.top
      refine (h.calm (Calm.repeats h hrepeats)).fires (hsound.repeats hrepeats) ?_ ?_ hfires
      · exact fun i hx => h.owner_open (.inl htop) ((hprivdata x).symm.trans hx)
      · intro i hi hopen hclosed y hy
        obtain ⟨hwaiting, hcount, hslot⟩ :=
          hready i hi hopen hclosed y ((hprivdata y).symm.trans hy)
        exact ⟨hwaiting, (hrepeats.count_le y).trans hcount, fun hmem => hslot (hle y hmem)⟩
  | fires x rest hwaiting hbehind hidle hfires =>
      have hmem : .timer x ∈ s.waiting := hwaiting ▸ List.mem_cons_self
      refine (h.calm (Calm.visits h hwaiting)).fires (hsound.visits hidle hwaiting) ?_ ?_ hfires
      · exact fun i hx => h.owner_open (.inr hmem) hx
      · intro i hi hopen hclosed
        have hcollected := hready i hi hopen hclosed
        rwa [← hbehind] at hcollected
  | finishes x rest hstack => exact h.calm (Calm.finishes h hstack)

/-- Once `io_close` has returned, the io is silent in every run in which each io is closed with
its timers collected and nothing is armed on a closed io. -/
theorem silent_along (cur_ms timers_num : ℕ) (timer : ℕ → Timer) (epoll : EpollSet)
    (io : ℕ → LoopIo) (as : List LoopAction)
    (h : Meets step CloseGuard (start (loopInit cur_ms timers_num timer epoll) io) as) :
    Along step Silent (start (loopInit cur_ms timers_num timer epoll) io) as := by
  have hrun : Along step (fun s => Tidy s ∧ Sound none s)
      (start (loopInit cur_ms timers_num timer epoll) io) as :=
    along_of_meets
      (fun s a t hs hguard hstep => ⟨tidy_step hs.1 hs.2 hguard hstep, sound_step hs.2 hstep⟩)
      ⟨Tidy.start _ io rfl, Sound.start _ io⟩ h
  exact hrun.mono fun s hs => hs.1.silent

/-- An io with a read timeout is closed. -/
def closesTimed : List LoopAction :=
  [.getIo 0 5 (fun _ => 0) bare, .setTimeout .read 0 10 0 (some 1), .ioClose 0]

theorem silent_along_closesTimed :
    Along step Silent fresh closesTimed ∧
      (exec step fresh closesTimed).map (·.returned) = some {0} := by
  refine ⟨silent_along 0 0 _ _ _ closesTimed ?_, by decide +kernel⟩
  let opened := fresh.create 0 (.new 5 (fun _ => 0) bare)
  let timed := (opened.step (.setTimeout .read 0 10 0 (some 1))).get (by decide +kernel)
  let closed := (timed.step (.ioClose 0)).get (by decide +kernel)
  have hios : ∀ i ∈ timed.ios, i = 0 := by
    intro i hi
    have heq : timed.ios = {0} := by decide +kernel
    rw [heq] at hi
    exact Finset.mem_singleton.mp hi
  have htimed : opened.step (.setTimeout .read 0 10 0 (some 1)) = some timed :=
    (Option.some_get _).symm
  have hclosed : timed.step (.ioClose 0) = some closed := (Option.some_get _).symm
  refine .cons (t := opened) rfl ⟨trivial, fun i hi => absurd hi (Finset.notMem_empty i)⟩ ?_
  refine .cons htimed ⟨fun h => absurd h (by decide +kernel), fun i hi hopen t ht hend => ?_⟩ ?_
  · obtain rfl := Option.some.inj (htimed.symm.trans ht)
    obtain rfl := hios i hi
    exact absurd hend (by decide +kernel)
  · refine .cons hclosed ⟨trivial, fun i hi _ t _ _ x hx => ?_⟩ trivial
    obtain rfl := hios i hi
    obtain rfl : x = 1 := by
      by_contra hne
      obtain ⟨added, armed, hmemory⟩ : ∃ added armed, timed.loop.timer =
          Function.update (Function.update fresh.loop.timer 1 added) 1 armed := ⟨_, _, rfl⟩
      rw [hmemory, Function.update_of_ne hne, Function.update_of_ne hne] at hx
      exact absurd hx (Option.some_ne_none 0).symm
    have hheap : timed.loop.timers.array = [1] := by decide +kernel
    have hwaiting : timed.waiting = [] := by decide +kernel
    refine ⟨?_, ?_, fun _ => ⟨.read, by decide +kernel⟩⟩
    · change .timer 1 ∉ timed.waiting
      rw [hwaiting]
      exact List.not_mem_nil
    · rw [hheap]
      decide

/-- The read and the write timer of an io expire in the same batch; a timer of the user is still in
the heap behind them. -/
def expiresTwice : List LoopAction :=
  [.getIo 0 5 (fun _ => 0) bare, .addTimer 100000 0 1 0 (some 3),
    .setTimeout .read 0 10 0 (some 1), .setTimeout .write 0 10 0 (some 2), .tick 10, .expire,
    .expire, .walk, .visit quiet, .resume quiet, .visit quiet]

/-- The read timeout is set again while the write timer is at the top of the heap. -/
def setsAgain : List LoopAction :=
  [.getIo 0 5 (fun _ => 0) bare, .setTimeout .write 0 5 0 (some 1),
    .setTimeout .read 0 10 0 (some 2), .setTimeout .read 0 20 0 none, .ioClose 0]

/-- `connect_cb` closes its io. -/
def closesInConnectCb : List LoopAction :=
  [.getIo 0 5 (fun _ => 0) { bare with connect_cb := true }, .ioConnect 0 .connected none quiet,
    .ioClose 0, .ret, .resume quiet]

/-- After `io_close` the callback of another timer still runs, a timer that was in the heap
twice is still there, or `io_read_enable` registers the closed io again. -/
theorem not_silent_along :
    ¬ Along step Silent fresh expiresTwice ∧ ¬ Along step Silent fresh setsAgain ∧
      ¬ Along step Silent fresh closesInConnectCb := by
  refine ⟨fun h => ?_, fun h => ?_, fun h => ?_⟩
  · have hend : (exec step fresh expiresTwice).map (fun t => (t.returned, t.calls)) =
        some ({0}, [(0, .timeout .write, false), (0, .timeout .read, true)]) := by decide +kernel
    obtain ⟨t, ht, heq⟩ := Option.map_eq_some_iff.mp hend
    obtain ⟨hreturned, hcalls⟩ := Prod.mk.inj heq
    refine (h.exec ht 0 (by simp [hreturned])).2 (.timeout .read) ?_
    rw [hcalls]
    exact List.mem_cons_of_mem _ List.mem_cons_self
  · have hend : (exec step fresh setsAgain).map (fun t =>
        (t.returned, t.loop.timers.array, (t.loop.timer 2).privdata)) =
          some ({0}, [2], some 0) := by decide +kernel
    obtain ⟨t, ht, heq⟩ := Option.map_eq_some_iff.mp hend
    obtain ⟨hreturned, hrest⟩ := Prod.mk.inj heq
    obtain ⟨hheap, hprivdata⟩ := Prod.mk.inj hrest
    refine ((h.exec ht 0 (by simp [hreturned])).1.timers 2 hprivdata).1 ?_
    rw [hheap]
    exact List.mem_cons_self
  · have hend : (exec step fresh closesInConnectCb).map (fun t => (t.returned, (t.io 0).events)) =
        some ({0}, eventRead) := by decide +kernel
    obtain ⟨t, ht, heq⟩ := Option.map_eq_some_iff.mp hend
    obtain ⟨hreturned, hevents⟩ := Prod.mk.inj heq
    have hzero := (h.exec ht 0 (by simp [hreturned])).1.events
    exact absurd (hevents.symm.trans hzero) (by decide)

end LibConn.LoopThread
