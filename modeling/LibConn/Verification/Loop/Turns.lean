import LibConn.Verification.Loop.Functions
import LibConn.Verification.Timer.Exactness

/-! # What a step of the thread can do

A step enters a function on one io or the callback of a timer, or it handles timers and
pending events itself. `step_turn` says once what can happen; invariants are derived from
it without looking at the functions again. -/

namespace LibConn

/-! ## Timers of the loop -/

/-- `add_timer` without an io, in the block `t`. -/
structure Grows (t : ℕ) (loop loop' : Loop) : Prop where
  free : (loop.timer t).allocated = false
  memory : ∃ timer, timer.privdata = none ∧ loop'.timer = Function.update loop.timer t timer
  heap : ∀ u ∈ loop'.timers.array, u = t ∨ u ∈ loop.timers.array

/-- The timer at the top of the heap is due. -/
structure Due (t : ℕ) (loop : Loop) : Prop where
  top : heapTop loop.timers = some t
  due : (loop.timer t).next_timeout ≤ loop.cur_ms

/-- What `process_timer` leaves of a timer, in any case. -/
structure SameOwner (timer timer' : Timer) : Prop where
  allocated : timer'.allocated = timer.allocated
  cb : timer'.cb = timer.cb
  privdata : timer'.privdata = timer.privdata

/-- `process_timer` has taken the timer `t` out for the last time. -/
structure Expires (t : ℕ) (loop loop' : Loop) : Prop extends Due t loop where
  repeats : (loop.timer t).repeats ≠ 0 ∧ (loop.timer t).repeats ≠ uint32Max
  memory : ∃ timer, SameOwner (loop.timer t) timer ∧ timer.repeats = 0 ∧
    loop'.timer = Function.update loop.timer t timer
  count_le : ∀ u, loop'.timers.array.count u ≤ loop.timers.array.count u

/-- `process_timer` has armed the timer `t` again. -/
structure Repeats (t : ℕ) (loop loop' : Loop) : Prop extends Due t loop where
  repeats : (loop.timer t).repeats ≠ 1
  memory : ∃ timer, SameOwner (loop.timer t) timer ∧
    timer.pending = (loop.timer t).pending ∧ timer.destory = (loop.timer t).destory ∧
    ((loop.timer t).repeats = 0 ∨ (loop.timer t).repeats = uint32Max →
      timer.repeats = uint32Max) ∧
    loop'.timer = Function.update loop.timer t timer
  count_le : ∀ u, loop'.timers.array.count u ≤ loop.timers.array.count u

theorem heapPop_count_le (compare : ℕ → ℕ → Bool) (heap : Heap ℕ) (u : ℕ) :
    (heapPop compare heap).array.count u ≤ heap.array.count u := by
  rw [(heapPop_perm compare heap).count_eq]
  exact (List.tail_sublist _).count_le u

theorem heapInsert_count_le (compare : ℕ → ℕ → Bool) (heap : Heap ℕ) (node u : ℕ) :
    (heapInsert compare heap node).array.count u ≤ (node :: heap.array).count u := by
  rw [heapInsert]
  split_ifs
  · exact (List.sublist_cons_self _ _).count_le u
  · exact ((heapifyUp_perm _ _ _).trans (List.perm_append_singleton _ _)).count_eq u |>.le

theorem heapRotate_count_le {compare compare' : ℕ → ℕ → Bool} {heap : Heap ℕ} {t : ℕ}
    (htop : heapTop heap = some t) (u : ℕ) :
    (heapInsert compare' (heapPop compare heap) t).array.count u ≤ heap.array.count u := by
  obtain ⟨rest, harray⟩ := List.head?_eq_some_iff.mp htop
  refine (heapInsert_count_le _ _ t u).trans ?_
  rw [List.count_cons, (heapPop_perm _ _).count_eq, harray, List.tail_cons, List.count_cons]

variable {loop loop' : Loop} {t : ℕ}

theorem processTimerTurn_last (h : processTimerTurn loop = .last t loop') :
    Expires t loop loop' := by
  obtain ⟨htop, hdue, hlast, rfl⟩ := processTimerTurn_eq_last h
  rw [countDown_eq] at hlast ⊢
  have hzero : counted (loop.timer t).repeats = 0 := by simpa [Loop.setTimer] using hlast
  refine ⟨⟨htop, hdue⟩, ⟨?_, ?_⟩, ?_, ?_⟩
  · intro hrepeats
    rw [counted_spent (.inl hrepeats)] at hzero
    exact absurd hzero (by decide)
  · intro hrepeats
    rw [counted_spent (.inr hrepeats)] at hzero
    exact absurd hzero (by decide)
  · let fired : Timer := { loop.timer t with repeats := 0, destory := true }
    cases hpending : (loop.timer t).pending with
    | true =>
        refine ⟨fired, ⟨rfl, rfl, rfl⟩, rfl, ?_⟩
        simp [eventPending, delTimer, Loop.setTimer, Loop.popTimer, hpending, hzero, fired]
    | false =>
        refine ⟨{ fired with pending := true, next_event := loop.pending }, ⟨rfl, rfl, rfl⟩,
          rfl, ?_⟩
        simp [eventPending, delTimer, Loop.setTimer, Loop.popTimer, hpending, hzero, fired]
  · intro u
    rw [eventPending]
    split_ifs <;> exact heapPop_count_le _ loop.timers u

theorem processTimerTurn_again (h : processTimerTurn loop = .again t loop') :
    Repeats t loop loop' := by
  obtain ⟨htop, hdue, hlast, rfl⟩ := processTimerTurn_eq_again h
  rw [countDown_eq] at hlast ⊢
  have hzero : counted (loop.timer t).repeats ≠ 0 := by simpa [Loop.setTimer] using hlast
  refine ⟨⟨htop, hdue⟩, ?_, ?_, ?_⟩
  · intro hone
    exact hzero (hone ▸ counted_one)
  · refine ⟨{ loop.timer t with
      repeats := counted (loop.timer t).repeats
      next_timeout := u64 (loop.cur_ms + (loop.timer t).timeout) },
      ⟨rfl, rfl, rfl⟩, rfl, rfl, counted_spent, ?_⟩
    simp [Loop.setTimer, Loop.popTimer, Loop.insertTimer]
  · exact fun u => heapRotate_count_le htop u

theorem processTimerTurn_last_perm (h : processTimerTurn loop = .last t loop') :
    loop'.timers.array.Perm loop.timers.array.tail := by
  obtain ⟨-, -, -, rfl⟩ := processTimerTurn_eq_last h
  rw [countDown_eq, eventPending]
  split_ifs <;> exact heapPop_perm _ _

theorem processTimerTurn_cur_ms
    (h : processTimerTurn loop = .last t loop' ∨ processTimerTurn loop = .again t loop') :
    loop'.cur_ms = loop.cur_ms := by
  rcases h with h | h
  · obtain ⟨-, -, -, rfl⟩ := processTimerTurn_eq_last h
    rw [countDown_eq, eventPending]
    split_ifs <;> rfl
  · obtain ⟨-, -, -, rfl⟩ := processTimerTurn_eq_again h
    rw [countDown_eq]
    rfl

namespace LoopThread

variable {s t u : LoopThread} {a : LoopAction} {i : ℕ} {w : World}

/-! ## Steps -/

/-- The thread has an io of this name, or is about to handle one. -/
def Knows (s : LoopThread) (i : ℕ) : Prop :=
  i ∈ s.ios ∨ .io i ∈ s.waiting ∨ ∃ frame ∈ s.stack, frame.io = some i

/-- The action arms nothing on a closed io, and does not change whether its `close_cb` is set. -/
def SparesClosed (s : LoopThread) : LoopAction → Prop
  | .ioReadEnable i => (s.io i).closed = false
  | .ioAccept i => (s.io i).closed = false
  | .ioConnect i r _ _ => (s.io i).closed = true → r = .failed
  | .setTimeout _ i timeout _ _ => (s.io i).closed = true → timeout < 0
  | .set i settings => (s.io i).closed = true → settings.close_cb = (s.io i).close_cb
  | .resume _ => ∀ i, s.stack.head? = some (.readEnable i) → (s.io i).closed = false
  | .visit _ => ∀ i, s.waiting.head? = some (.io i) → (s.io i).cb = some .sslServerHandshake →
      (s.io i).closed = false
  | _ => True

/-- The events that wait behind the one that the step handles. -/
def behind (s : LoopThread) : LoopAction → List LoopEvent
  | .visit _ => s.waiting.tail
  | _ => s.waiting

/-- An event is taken from the pending list or a frame from the stack; ios and timers stay. -/
structure Enters (s u : LoopThread) : Prop where
  ios : u.ios = s.ios
  io : u.io = s.io
  returned : u.returned = s.returned
  calls : u.calls = s.calls
  memory : u.loop.timer = s.loop.timer
  heap : u.loop.timers = s.loop.timers
  waiting : u.waiting = s.waiting ∨
    ∃ e, s.waiting = e :: u.waiting ∧ ∀ x, e = .timer x → (s.loop.timer x).cb = none
  stack : ∀ frame ∈ u.stack, frame ∈ s.stack ∨
    ∃ i, frame = .done (.io i) ∧ s.waiting = .io i :: u.waiting

/-- What a step can do. -/
inductive Turn (s : LoopThread) (a : LoopAction) : LoopThread → Prop where
  | enters {t : LoopThread} (h : Enters s t) : Turn s a t
  | acts {u t : LoopThread} (i : ℕ) (cbs : List IoCallback) (hknown : s.Knows i)
      (henters : Enters s u) (hbehind : u.waiting = s.behind a) (h : Acts i cbs u t)
      (hasleep : SparesClosed s a → Asleep u i → Drowses i u t) : Turn s a t
  | creates {u t : LoopThread} (i : ℕ) (fd : ℤ) (malloced : ℕ → UInt8) (settings : IoSettings)
      (cbs : List IoCallback) (hnew : i ∉ s.ios) (henters : Enters s u)
      (h : Acts i cbs (u.create i (.new fd malloced settings)) t) : Turn s a t
  | sets (i : ℕ) (settings : IoSettings) (hi : i ∈ s.ios)
      (hspares : SparesClosed s a → (s.io i).closed = true →
        settings.close_cb = (s.io i).close_cb) : Turn s a (s.setIo i ((s.io i).set settings))
  | returns (i : ℕ) (rest : List Frame) (hstack : s.stack = .closed i :: rest) :
      Turn s a { s with stack := rest, returned := insert i s.returned }
  | dispatches (i : ℕ) (revents : Mask) (hi : i ∈ s.ios) : Turn s a (s.dispatch i revents)
  | grows (x : ℕ) (loop : Loop) (h : Grows x s.loop loop) : Turn s a { s with loop := loop }
  | shrinks (loop : Loop) (hmemory : loop.timer = s.loop.timer)
      (hheap : ∀ x ∈ loop.timers.array, x ∈ s.loop.timers.array) : Turn s a { s with loop := loop }
  | expires (x : ℕ) (loop : Loop) (ha : a = .expire) (hidle : s.stack = [])
      (hallocated : (s.loop.timer x).allocated = true) (h : Expires x s.loop loop) :
      Turn s a { s with
        loop := loop
        expiring := true
        waiting := if (s.loop.timer x).pending then s.waiting else .timer x :: s.waiting }
  | repeats {t : LoopThread} (x : ℕ) (loop : Loop) (ha : a = .expire) (hidle : s.stack = [])
      (hallocated : (s.loop.timer x).allocated = true) (h : Repeats x s.loop loop)
      (hfires : Fires x { s with loop := loop, expiring := true } t) : Turn s a t
  | fires {t : LoopThread} (x : ℕ) (rest : List LoopEvent)
      (hwaiting : s.waiting = .timer x :: rest) (hbehind : rest = s.behind a)
      (hidle : s.stack = [])
      (hfires : Fires x ({ s with waiting := rest }.push [.done (.timer x)]) t) : Turn s a t
  | finishes (x : ℕ) (rest : List Frame) (hstack : s.stack = .done (.timer x) :: rest) :
      Turn s a { s with stack := rest, loop := pendingDone s.loop x }

theorem Enters.refl (s : LoopThread) : Enters s s :=
  ⟨rfl, rfl, rfl, rfl, rfl, rfl, .inl rfl, fun _ h => .inl h⟩

theorem Enters.pop {frame : Frame} {rest : List Frame} (h : s.stack = frame :: rest) :
    Enters s { s with stack := rest } :=
  ⟨rfl, rfl, rfl, rfl, rfl, rfl, .inl rfl, fun _ hmem => .inl (h ▸ List.mem_cons_of_mem _ hmem)⟩

theorem Enters.drop {e : LoopEvent} {rest : List LoopEvent} (h : s.waiting = e :: rest)
    (hcb : ∀ x, e = .timer x → (s.loop.timer x).cb = none) :
    Enters s { s with waiting := rest } :=
  ⟨rfl, rfl, rfl, rfl, rfl, rfl, .inr ⟨e, h, hcb⟩, fun _ hmem => .inl hmem⟩

theorem Enters.visit {rest : List LoopEvent} (h : s.waiting = .io i :: rest) :
    Enters s ({ s with waiting := rest }.push [.done (.io i)]) := by
  refine ⟨rfl, rfl, rfl, rfl, rfl, rfl, .inr ⟨.io i, h, fun x hx => by cases hx⟩, ?_⟩
  intro frame hmem
  rcases List.mem_cons.mp hmem with rfl | hmem
  · exact .inr ⟨i, rfl, h⟩
  · exact .inl hmem

theorem Enters.clock {loop : Loop} {expiring walking : Bool} (hmemory : loop.timer = s.loop.timer)
    (hheap : loop.timers = s.loop.timers) :
    Enters s { s with loop := loop, expiring := expiring, walking := walking } :=
  ⟨rfl, rfl, rfl, rfl, hmemory, hheap, .inl rfl, fun _ hmem => .inl hmem⟩

theorem visit_turn (hidle : s.stack = []) (h : s.visit w = some t) : Turn s (.visit w) t := by
  rw [visit] at h
  cases hwaiting : s.waiting with
  | nil =>
      simp only [hwaiting] at h
      obtain rfl := Option.some.inj h
      exact .enters ⟨rfl, rfl, rfl, rfl, rfl, rfl, .inl hwaiting.symm, fun _ hmem => .inl hmem⟩
  | cons e rest =>
      cases e with
      | io i =>
          simp only [hwaiting] at h
          split_ifs at h
          · obtain rfl := Option.some.inj h
            exact .enters (.drop hwaiting fun x hx => by cases hx)
          · obtain ⟨cbs, hruns⟩ := runIo_runs h
            refine .acts i cbs (.inr (.inl ?_)) (.visit hwaiting)
              (by simp [behind, hwaiting, push]) hruns.acts ?_
            · rw [hwaiting]
              exact List.mem_cons_self
            · intro hspares hasleep
              refine hasleep.runIo (fun hcb => ?_) h
              have hopen := hspares i (by rw [hwaiting]; rfl) hcb
              exact absurd (hopen.symm.trans hasleep.closed) (by decide)
      | timer x =>
          simp only [hwaiting] at h
          split_ifs at h with hgone hcb
          · obtain rfl := Option.some.inj h
            refine .enters (.drop hwaiting fun y hy => ?_)
            obtain rfl := LoopEvent.timer.inj hy
            exact hcb
          · exact .fires x rest hwaiting (by simp [behind, hwaiting]) hidle (runTimer_fires h)

theorem expire_turn (hidle : s.stack = []) (h : s.expire = some t) : Turn s .expire t := by
  rw [expire] at h
  cases hturn : processTimerTurn s.loop with
  | fault => simp [hturn] at h
  | stop => simp [hturn] at h
  | last x loop =>
      simp only [hturn, Option.ite_none_right_eq_some] at h
      obtain ⟨hallocated, h⟩ := h
      obtain rfl := Option.some.inj h
      exact .expires x loop rfl hidle hallocated (processTimerTurn_last hturn)
  | again x loop =>
      simp only [hturn, Option.ite_none_right_eq_some] at h
      obtain ⟨hallocated, h⟩ := h
      exact .repeats x loop rfl hidle hallocated (processTimerTurn_again hturn) (runTimer_fires h)

theorem resume_turn (h : s.resume w = some t) : Turn s (.resume w) t := by
  rw [resume] at h
  cases hstack : s.stack with
  | nil => simp [hstack] at h
  | cons frame rest =>
      have hpop : Enters s { s with stack := rest } := .pop hstack
      have hknown : ∀ i, frame.io = some i → s.Knows i := by
        intro i hi
        exact .inr (.inr ⟨frame, hstack ▸ List.mem_cons_self, hi⟩)
      cases frame with
      | user held => simp [hstack] at h
      | closed i =>
          simp only [hstack] at h
          obtain rfl := Option.some.inj h
          exact .returns i rest hstack
      | readEnable i =>
          simp only [hstack] at h
          obtain rfl := Option.some.inj h
          refine .acts i [] (hknown i rfl) hpop rfl (ioReadEnable_mild _ i).runs.acts ?_
          intro hspares hasleep
          have hopen := hspares i (by rw [hstack]; rfl)
          exact absurd (hopen.symm.trans hasleep.closed) (by decide)
      | readPart i =>
          simp only [hstack] at h
          rcases readPart_runs h with ⟨cbs, hruns⟩ | ⟨j, fd, malloced, settings, cbs, hnew, hruns⟩
          · refine .acts i cbs (hknown i rfl) hpop rfl hruns.acts fun _ hasleep => ?_
            rw [hasleep.readPart h]
            exact hasleep.mild (.refl i _) rfl
          · exact .creates j fd malloced settings cbs hnew hpop hruns.acts
      | done e =>
          simp only [hstack] at h
          obtain rfl := Option.some.inj h
          cases e with
          | io i =>
              have hmild : Mild i [] { s with stack := rest }
                  ({ s with stack := rest }.finish (.io i)) := .setIo (.refl _)
              refine .acts i [] (hknown i rfl) hpop rfl hmild.runs.acts fun _ hasleep => ?_
              refine hasleep.mild hmild ?_
              simp [finish, setIo]
          | timer x => exact .finishes x rest hstack

theorem addTimer_grows {loop : Loop} (timeout : ℤ) (cb : Option TimerCb) (repeats now : ℕ)
    {mem : Option ℕ} (hmem : loop.memFree mem) :
    (addTimer loop timeout cb repeats now mem).2 = loop ∨
      ∃ x, Grows x loop (addTimer loop timeout cb repeats now mem).2 := by
  unfold addTimer
  by_cases hzero : timeout = 0
  · rw [if_pos hzero]
    exact .inl rfl
  · rw [if_neg hzero]
    cases mem with
    | none => exact .inl rfl
    | some x =>
        let timer : Timer :=
          { Timer.zero with
            timeout := u64 timeout
            next_timeout := u64 (now + timeout)
            cb := cb
            repeats := if repeats = 0 then 1 else repeats }
        refine .inr ⟨x, hmem x rfl, ⟨timer, rfl, ?_⟩, fun u hu => heapInsert_subset hu⟩
        simp [Loop.insertTimer, Loop.setTimer, updateLoopTimer, timer]

theorem userCall_turn (h : s.userCall a = some t) : Turn s a t := by
  cases a with
  | getIo i fd malloced settings =>
      simp only [userCall, Option.ite_none_left_eq_some] at h
      obtain ⟨hnew, h⟩ := h
      obtain rfl := Option.some.inj h
      exact .creates i fd malloced settings [] hnew (.refl s) (Mild.refl i _).runs.acts
  | set i settings =>
      simp only [userCall, Option.ite_none_right_eq_some] at h
      obtain ⟨hi, h⟩ := h
      obtain rfl := Option.some.inj h
      exact .sets i settings hi fun hspares => hspares
  | ioConnect i r mem w =>
      simp only [userCall, Option.ite_none_right_eq_some] at h
      obtain ⟨hi, h⟩ := h
      obtain ⟨cbs, hacts⟩ := ioConnect_acts h
      refine .acts i cbs (.inl hi) (.refl s) rfl hacts fun hspares hasleep => ?_
      obtain rfl := hspares hasleep.closed
      obtain rfl := Option.some.inj h
      exact hasleep.mild (.refl i s) rfl
  | ioAccept i =>
      simp only [userCall, Option.ite_none_right_eq_some] at h
      obtain ⟨hi, h⟩ := h
      obtain rfl := Option.some.inj h
      have hset : Mild i [] s (s.setIo i { s.io i with accept := true }) := .setIo (.refl _)
      refine .acts i [] (.inl hi) (.refl s) rfl (hset.trans (ioReadEnable_mild _ i)).runs.acts ?_
      exact fun hspares hasleep => absurd (hasleep.closed.symm.trans hspares) (by decide)
  | ioReadEnable i =>
      simp only [userCall, Option.ite_none_right_eq_some] at h
      obtain ⟨hi, h⟩ := h
      obtain rfl := Option.some.inj h
      refine .acts i [] (.inl hi) (.refl s) rfl (ioReadEnable_mild s i).runs.acts ?_
      exact fun hspares hasleep => absurd (hasleep.closed.symm.trans hspares) (by decide)
  | ioWrite i payload r now =>
      simp only [userCall, Option.ite_none_right_eq_some] at h
      obtain ⟨hi, h⟩ := h
      exact .acts i _ (.inl hi) (.refl s) rfl (ran_runs h ioWrite_outcome).2.2.acts
        fun _ hasleep => hasleep.ioWrite h
  | ioClose i =>
      simp only [userCall, Option.ite_none_right_eq_some] at h
      obtain ⟨hi, h⟩ := h
      obtain ⟨-, cbs, hruns⟩ := ioClose_runs h
      exact .acts i cbs (.inl hi) (.refl s) rfl hruns.acts fun _ hasleep => hasleep.ioClose h
  | setTimeout kind i timeout now mem =>
      simp only [userCall, Option.ite_none_right_eq_some, Option.map_eq_some_iff] at h
      obtain ⟨⟨hi, hmem⟩, c, hset, rfl⟩ := h
      refine .acts i [] (.inl hi) (.refl s) rfl (setTimeout_acts hmem hset) ?_
      intro hspares hasleep
      have hneg : timeout < 0 := hspares hasleep.closed
      rw [ioSetTimeoutOf_timerCb, ioSetTimeout, if_pos hneg] at hset
      obtain rfl := Option.some.inj hset
      split_ifs
      · exact hasleep.removeTimeout kind
      · exact hasleep.mild (.setConn (.refl _)) (by simp [setConn, setIo, conn])
  | removeTimeout write i =>
      simp only [userCall, Option.ite_none_right_eq_some] at h
      obtain ⟨hi, h⟩ := h
      obtain rfl := Option.some.inj h
      exact .acts i [] (.inl hi) (.refl s) rfl (removeTimeout_acts s i (by cases write <;> decide))
        fun _ hasleep => hasleep.removeTimeout _
  | addTimer timeout k repeats now mem =>
      simp only [userCall, Option.ite_none_right_eq_some] at h
      obtain ⟨hmem, h⟩ := h
      obtain rfl := Option.some.inj h
      rcases addTimer_grows timeout (some (.user k)) repeats now hmem with hsame | ⟨x, hgrows⟩
      · rw [hsame]
        exact .enters (.refl s)
      · exact .grows x _ hgrows
  | delTimer x =>
      simp only [userCall, Option.ite_none_right_eq_some] at h
      obtain ⟨-, h⟩ := h
      obtain rfl := Option.some.inj h
      exact .shrinks _ rfl fun u hu => heapPop_subset hu
  | _ => cases h

theorem step_turn (h : s.step a = some t) : Turn s a t := by
  cases a with
  | tick now =>
      simp only [step, Option.ite_none_right_eq_some] at h
      obtain ⟨-, h⟩ := h
      obtain rfl := Option.some.inj h
      exact .enters (.clock rfl rfl)
  | expire =>
      simp only [step, Option.ite_none_right_eq_some] at h
      obtain ⟨hidle, h⟩ := h
      exact expire_turn (by simpa using (Bool.and_eq_true_iff.mp hidle).1) h
  | dispatch i revents =>
      simp only [step, Option.ite_none_right_eq_some] at h
      obtain ⟨⟨-, hi, -⟩, h⟩ := h
      obtain rfl := Option.some.inj h
      exact .dispatches i revents hi
  | walk =>
      simp only [step, Option.ite_none_right_eq_some] at h
      obtain ⟨-, h⟩ := h
      obtain rfl := Option.some.inj h
      exact .enters (.clock rfl rfl)
  | visit w =>
      simp only [step, Option.ite_none_right_eq_some] at h
      exact visit_turn h.1.2 h.2
  | resume w => exact resume_turn h
  | ret =>
      simp only [step] at h
      cases hstack : s.stack with
      | nil => simp [hstack] at h
      | cons frame rest =>
          cases frame <;> simp only [hstack] at h
          case user held =>
            obtain rfl := Option.some.inj h
            exact .enters (.pop hstack)
          all_goals cases h
  | _ =>
      simp only [step, Option.ite_none_right_eq_some] at h
      exact userCall_turn h.2

end LoopThread

end LibConn
