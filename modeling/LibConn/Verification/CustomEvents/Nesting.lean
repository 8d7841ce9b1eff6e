import LibConn.Model.NestedPosts
import LibConn.Shared.Run
import LibConn.Verification.CustomEvents.Delivery

/-! # Nested posts

Callbacks run under the mutex that `loop_post_event` takes, so a drain returns exactly when
none of them posts. What a callback posted can then not be lost either. -/

namespace LibConn.NestedPosts

open LibConn.Run LibConn.CustomEvents

/-- The call gets as far as `loop_post_event` with an event. -/
def Call.posts : Call → Bool
  | .loopPostEvent event _ => event.isSome
  | .postEvent _ _ => true
  | .asyncSend req _ _ => req.any fun url => decide (url ≠ [] ∧ parseUrl url = 0)

/-- The slot runs `onCustomEvent`. -/
def Thread.functor (t : Thread) (i : ℕ) : Bool :=
  (t.loop.m_loop.custom_events i).any fun event => event.cb && decide (event.addr ∈ t.functors)

/-- How many functors the slots before `i` take from the queue. -/
def Thread.popped (t : Thread) (i : ℕ) : ℕ :=
  (List.range i).countP t.functor

/-- The slot runs code of the user: its own callback, or the functor whose turn it is. -/
def Thread.runsUserCode (t : Thread) (i : ℕ) : Bool :=
  if t.functor i then t.loop.m_eventQueue[t.popped i]?.any PostEvent.Event.fn
  else t.loop.m_loop.runs i

/-- The queue has a functor for each slot that takes one, and no code of the user that the
drain runs posts. -/
def Guard (s : System) : Action → Prop
  | .drain k does =>
      s.thread.popped k ≤ s.thread.loop.m_eventQueue.length ∧
        ∀ i < k, s.thread.runsUserCode i = true → ∀ call ∈ does i, call.posts = false
  | _ => True

/-! ## Calls under the mutex -/

section Held

variable {t : Thread}

theorem loopPostEvent_held (hheld : t.mutex = true) (event : CustomEvents.Event) (nwrite : ℤ) :
    t.loopPostEvent (some event) nwrite = none := by
  have hlock : t.lock = none := if_pos hheld
  simp only [Thread.loopPostEvent, hlock, Option.map_none]

theorem lockQueue_free (hqueue : t.m_mutex = false) :
    t.lockQueue = some { t with m_mutex := true } := by
  rw [Thread.lockQueue, if_neg (by rw [hqueue]; exact Bool.false_ne_true)]

theorem postEvent_held (hheld : t.mutex = true) (hqueue : t.m_mutex = false)
    (ev : PostEvent.Event) (nwrite : ℤ) : t.postEvent ev nwrite = none := by
  rw [Thread.postEvent, lockQueue_free hqueue, Option.bind_some]
  dsimp only
  rw [loopPostEvent_held]
  exact hheld

/-- A call that posts is stuck, and every other call does nothing. -/
theorem call_held (hheld : t.mutex = true) (hqueue : t.m_mutex = false) (call : Call) :
    t.call call = if call.posts = true then none else some t := by
  cases call with
  | loopPostEvent event nwrite =>
      cases event with
      | none => rfl
      | some event => exact loopPostEvent_held hheld event nwrite
  | postEvent ev nwrite => exact postEvent_held hheld hqueue ev nwrite
  | asyncSend req addr nwrite =>
      cases req with
      | none => rfl
      | some url =>
          simp only [Thread.call, Thread.asyncSend, Call.posts, Option.any_some,
            decide_eq_true_eq, postEvent_held hheld hqueue]
          by_cases hempty : url = []
          · simp [hempty]
          · by_cases hparse : parseUrl url = 0 <;> simp [hempty, hparse]

theorem calls_held (hheld : t.mutex = true) (hqueue : t.m_mutex = false) (calls : List Call) :
    calls.foldlM Thread.call t =
      if ∀ call ∈ calls, call.posts = false then some t else none := by
  induction calls with
  | nil => simp
  | cons call calls ih =>
      rw [List.foldlM_cons, call_held hheld hqueue]
      cases hposts : call.posts with
      | true => simp [hposts]
      | false => simpa [hposts] using ih

theorem userCode_held (hheld : t.mutex = true) (hqueue : t.m_mutex = false)
    (calls : List Call) :
    t.userCode calls = if ∀ call ∈ calls, call.posts = false then some t else none := by
  rw [Thread.userCode, calls_held hheld hqueue]
  split_ifs
  · rw [Option.map_some, List.drop_length, List.map_nil, List.append_nil]
  · rfl

/-! ## The slots -/

/-- The thread when the slots before `i` have run and none of them posted. -/
def Thread.upTo (t : Thread) (i : ℕ) : Thread :=
  { t with
    loop := { t.loop with m_eventQueue := t.loop.m_eventQueue.drop (t.popped i) }
    ran := t.ran ++ (pipeReadCbCalls t.loop.m_loop i).map Prod.snd }

/-- What slot `i` needs to return. -/
def Thread.Returns (t : Thread) (does : ℕ → List Call) (i : ℕ) : Prop :=
  (t.functor i = true → t.popped i < t.loop.m_eventQueue.length) ∧
    (t.runsUserCode i = true → ∀ call ∈ does i, call.posts = false)

theorem popped_succ (t : Thread) (i : ℕ) :
    t.popped (i + 1) = t.popped i + if t.functor i = true then 1 else 0 := by
  simp [Thread.popped, List.range_succ, List.countP_append, List.countP_singleton]

theorem upTo_zero (t : Thread) : t.upTo 0 = t := by
  simp [Thread.upTo, Thread.popped, pipeReadCbCalls]

theorem onCustomEvent_held (hheld : t.mutex = true) (hqueue : t.m_mutex = false)
    (calls : List Call) :
    t.onCustomEvent calls = t.loop.m_eventQueue.head?.bind fun ev =>
      if ev.fn = true → ∀ call ∈ calls, call.posts = false then
        some { t with loop := { t.loop with m_eventQueue := t.loop.m_eventQueue.tail } }
      else none := by
  rw [Thread.onCustomEvent, lockQueue_free hqueue, Option.bind_some]
  cases hevents : t.loop.m_eventQueue with
  | nil => simp only [PostEvent.EventLoop.popFront, hevents, List.head?_nil, Option.bind_none]
  | cons ev rest =>
      simp only [PostEvent.EventLoop.popFront, hevents, List.head?_cons, Option.bind_some,
        List.tail_cons, Thread.unlockQueue]
      cases hfn : ev.fn with
      | false => simp [hqueue]
      | true =>
          rw [if_pos rfl, userCode_held]
          · simp [hqueue]
          · exact hheld
          · rfl

theorem upTo_succ (t : Thread) (i : ℕ) :
    t.upTo (i + 1) =
      { t.upTo i with
        loop := { t.loop with
          m_eventQueue :=
            if t.functor i = true then (t.upTo i).loop.m_eventQueue.tail
            else (t.upTo i).loop.m_eventQueue }
        ran := (t.upTo i).ran ++ ((t.loop.m_loop.custom_events i).filter Event.cb).toList } := by
  have hqueue : t.loop.m_eventQueue.drop (t.popped (i + 1)) =
      if t.functor i = true then (t.loop.m_eventQueue.drop (t.popped i)).tail
      else t.loop.m_eventQueue.drop (t.popped i) := by
    rw [popped_succ, List.tail_drop]
    split_ifs <;> rfl
  simp only [Thread.upTo, hqueue, pipeReadCbCalls_succ, List.append_assoc]

theorem slot_quiet {i : ℕ} (h : t.loop.m_loop.runs i = false) (calls : List Call) :
    t.slot i calls = some t := by
  rw [Thread.slot]
  cases hslot : t.loop.m_loop.custom_events i with
  | none => rfl
  | some event =>
      have hcb : event.cb = false := by simpa [EventLoop.runs, hslot] using h
      simp [hcb]

theorem slot_runs {i : ℕ} {event : CustomEvents.Event}
    (hslot : t.loop.m_loop.custom_events i = some event) (hcb : event.cb = true)
    (calls : List Call) :
    t.slot i calls =
      if t.functor i = true then { t with ran := t.ran ++ [event] }.onCustomEvent calls
      else { t with ran := t.ran ++ [event] }.userCode calls := by
  have hfunctor : t.functor i = true ↔ event.addr ∈ t.functors := by
    simp [Thread.functor, hslot, hcb]
  simp only [Thread.slot, hslot, hcb, if_true, hfunctor]

theorem runs_of_functor {i : ℕ} (h : t.functor i = true) : t.loop.m_loop.runs i = true := by
  cases hslot : t.loop.m_loop.custom_events i with
  | none => simp [Thread.functor, hslot] at h
  | some event =>
      simp only [Thread.functor, hslot, Option.any_some, Bool.and_eq_true] at h
      simp only [EventLoop.runs, hslot, Option.any_some, h.1]

theorem returns_callback {does : ℕ → List Call} {i : ℕ} (hfunctor : t.functor i = false)
    (hruns : t.loop.m_loop.runs i = true) :
    t.Returns does i ↔ ∀ call ∈ does i, call.posts = false := by
  simp [Thread.Returns, Thread.runsUserCode, hfunctor, hruns]

theorem returns_functor {does : ℕ → List Call} {i : ℕ} (hfunctor : t.functor i = true) :
    t.Returns does i ↔ ∃ ev, t.loop.m_eventQueue[t.popped i]? = some ev ∧
      (ev.fn = true → ∀ call ∈ does i, call.posts = false) := by
  rw [Thread.Returns, Thread.runsUserCode, if_pos hfunctor]
  constructor
  · rintro ⟨hstocked, hsilent⟩
    have hev := List.getElem?_eq_getElem (hstocked hfunctor)
    refine ⟨_, hev, fun hfn => hsilent ?_⟩
    rw [hev, Option.any_some, hfn]
  · rintro ⟨ev, hev, hsilent⟩
    refine ⟨fun _ => (List.getElem?_eq_some_iff.mp hev).1, fun h => hsilent ?_⟩
    rwa [hev, Option.any_some] at h

theorem slot_upTo (hheld : t.mutex = true) (hqueue : t.m_mutex = false)
    (does : ℕ → List Call) (i : ℕ) :
    (t.upTo i).slot i (does i) = some (t.upTo (i + 1)) ∧ t.Returns does i ∨
      (t.upTo i).slot i (does i) = none ∧ ¬ t.Returns does i := by
  cases hruns : t.loop.m_loop.runs i with
  | false =>
      have hfunctor : t.functor i = false := by
        by_contra h
        rw [runs_of_functor (Bool.not_eq_false _ ▸ h)] at hruns
        cases hruns
      have hnone : (t.loop.m_loop.custom_events i).filter Event.cb = none := by
        cases hslot : t.loop.m_loop.custom_events i with
        | none => rfl
        | some event => simpa [EventLoop.runs, hslot] using hruns
      left
      refine ⟨?_, ?_⟩
      · rw [slot_quiet (t := t.upTo i) hruns, upTo_succ, hfunctor, hnone, Option.toList_none,
          List.append_nil]
        rfl
      · simp [Thread.Returns, Thread.runsUserCode, hfunctor, hruns]
  | true =>
      obtain ⟨event, hslot, hcb⟩ := (Option.any_eq_true _ _).mp hruns
      have hcalled : (t.loop.m_loop.custom_events i).filter Event.cb = some event := by
        rw [hslot, Option.filter_some, if_pos hcb]
      rw [slot_runs (t := t.upTo i) hslot hcb, upTo_succ, hcalled, Option.toList_some]
      cases hfunctor : t.functor i with
      | false =>
          have hplain : (t.upTo i).functor i = false := hfunctor
          rw [hplain, if_neg Bool.false_ne_true, if_neg Bool.false_ne_true, userCode_held]
          · rw [returns_callback hfunctor hruns]
            split_ifs with hsilent
            · exact .inl ⟨rfl, hsilent⟩
            · exact .inr ⟨rfl, hsilent⟩
          · exact hheld
          · exact hqueue
      | true =>
          have hpops : (t.upTo i).functor i = true := hfunctor
          rw [hpops, if_pos rfl, if_pos rfl, onCustomEvent_held]
          · have hhead : (t.upTo i).loop.m_eventQueue.head? = t.loop.m_eventQueue[t.popped i]? :=
              List.head?_drop
            rw [returns_functor hfunctor, hhead]
            cases hev : t.loop.m_eventQueue[t.popped i]? with
            | none => simp
            | some ev =>
                rw [Option.bind_some]
                simp only [Option.some.injEq, exists_eq_left']
                split_ifs with hsilent
                · exact .inl ⟨rfl, hsilent⟩
                · exact .inr ⟨rfl, hsilent⟩
          · exact hheld
          · exact hqueue

theorem slots_upTo (hheld : t.mutex = true) (hqueue : t.m_mutex = false)
    (does : ℕ → List Call) (n : ℕ) :
    t.slots does n = some (t.upTo n) ∧ (∀ i < n, t.Returns does i) ∨
      t.slots does n = none ∧ ¬ ∀ i < n, t.Returns does i := by
  induction n with
  | zero => exact .inl ⟨congrArg some (upTo_zero t).symm, fun i hi => absurd hi (Nat.not_lt_zero i)⟩
  | succ n ih =>
      have hslots : t.slots does (n + 1) = (t.slots does n).bind fun t => t.slot n (does n) := by
        simp [Thread.slots, List.range_succ, List.foldlM_append]
      rw [hslots]
      simp only [Nat.forall_lt_succ_right]
      rcases ih with ⟨hsome, hreturns⟩ | ⟨hnone, hstuck⟩
      · rw [hsome, Option.bind_some]
        rcases slot_upTo hheld hqueue does n with ⟨hslot, hn⟩ | ⟨hslot, hn⟩
        · exact .inl ⟨hslot, hreturns, hn⟩
        · exact .inr ⟨hslot, fun h => hn h.2⟩
      · rw [hnone, Option.bind_none]
        exact .inr ⟨rfl, fun h => hstuck h.1⟩

theorem popped_le_iff (t : Thread) (k n : ℕ) :
    t.popped k ≤ n ↔ ∀ i < k, t.functor i = true → t.popped i < n := by
  induction k with
  | zero => simp [Thread.popped]
  | succ k ih =>
      rw [popped_succ, Nat.forall_lt_succ_right, ← ih]
      cases hfunctor : t.functor k with
      | false => simp
      | true =>
          simp only [if_true, forall_const]
          omega

end Held

/-! ## Turns -/

/-- No mutex is taken, and no callback has posted. -/
structure Thread.Free (t : Thread) : Prop where
  mutex : t.mutex = false
  m_mutex : t.m_mutex = false
  nested : t.nested = []

theorem Thread.Free.lock {t : Thread} (h : t.Free) : t.lock = some { t with mutex := true } := by
  rw [Thread.lock, if_neg (by rw [h.mutex]; exact Bool.false_ne_true)]

theorem loopPostEvent_free {t : Thread} (h : t.Free) (event : Option CustomEvents.Event)
    (nwrite : ℤ) : ∃ t', t.loopPostEvent event nwrite = some t' ∧ t'.Free := by
  cases event with
  | none => exact ⟨t, rfl, h⟩
  | some event =>
      rw [Thread.loopPostEvent, h.lock]
      exact ⟨_, rfl, rfl, h.m_mutex, h.nested⟩

theorem postEvent_free {t : Thread} (h : t.Free) (ev : PostEvent.Event) (nwrite : ℤ) :
    ∃ t', t.postEvent ev nwrite = some t' ∧ t'.Free := by
  rw [Thread.postEvent, lockQueue_free h.m_mutex, Option.bind_some]
  apply loopPostEvent_free
  exact ⟨h.mutex, rfl, h.nested⟩

/-- A call while no mutex is taken returns, whatever it posts. -/
theorem call_free {t : Thread} (h : t.Free) (call : Call) :
    ∃ t', t.call call = some t' ∧ t'.Free := by
  cases call with
  | loopPostEvent event nwrite => exact loopPostEvent_free h event nwrite
  | postEvent ev nwrite => exact postEvent_free h ev nwrite
  | asyncSend req addr nwrite =>
      cases req with
      | none => exact ⟨t, rfl, h⟩
      | some url =>
          simp only [Thread.call, Thread.asyncSend]
          split_ifs
          · exact ⟨t, rfl, h⟩
          · exact ⟨t, rfl, h⟩
          · exact postEvent_free h _ nwrite

theorem pipeReadCb_free {t : Thread} (h : t.Free) (does : ℕ → List Call) (k : ℕ) :
    (∃ t', t.pipeReadCb does k = some t' ∧ t'.Free) ∧ (∀ i < k, t.Returns does i) ∨
      t.pipeReadCb does k = none ∧ ¬ ∀ i < k, t.Returns does i := by
  rw [Thread.pipeReadCb, h.lock, Option.bind_some]
  rcases slots_upTo (t := { t with mutex := true }) rfl h.m_mutex does k with
    ⟨hsome, hreturns⟩ | ⟨hnone, hstuck⟩
  · rw [hsome]
    exact .inl ⟨⟨_, rfl, rfl, h.m_mutex, h.nested⟩, hreturns⟩
  · rw [hnone]
    exact .inr ⟨rfl, hstuck⟩

theorem guard_drain_iff {s : System} {k : ℕ} {does : ℕ → List Call} :
    Guard s (.drain k does) ↔ ∀ i < k, s.thread.Returns does i := by
  rw [Guard, popped_le_iff, ← forall₂_and]
  rfl

/-- The thread is not stuck, and it is free. -/
structure Free (s : System) : Prop where
  running : s.stuck = false
  thread : s.thread.Free

theorem Free.step {s u : System} {a : Action} (h : Free s) (hstep : s.step a = some u) :
    Guard s a ∧ Free u ∨ ¬ Guard s a ∧ u.stuck = true := by
  unfold System.step at hstep
  rw [if_neg (by rw [h.running]; exact Bool.false_ne_true)] at hstep
  cases a with
  | call call =>
      obtain ⟨t', ht', hfree⟩ := call_free h.thread call
      dsimp only at hstep
      rw [ht'] at hstep
      cases hstep
      exact .inl ⟨trivial, h.running, hfree⟩
  | wakeup =>
      cases hstep
      exact .inl ⟨trivial, h.running, h.thread.mutex, h.thread.m_mutex, h.thread.nested⟩
  | drain k does =>
      dsimp only at hstep
      split_ifs at hstep
      cases hstep
      rw [guard_drain_iff]
      rcases pipeReadCb_free (t := { s.thread with
          loop := { s.thread.loop with
            m_loop := { s.thread.loop.m_loop with
              pipe := s.thread.loop.m_loop.pipe.drop k } } })
        ⟨h.thread.mutex, h.thread.m_mutex, h.thread.nested⟩ does k with
        ⟨⟨t', ht', hfree⟩, hreturns⟩ | ⟨hnone, hstuck⟩
      · rw [ht']
        exact .inl ⟨hreturns, h.running, hfree⟩
      · rw [hnone]
        exact .inr ⟨hstuck, rfl⟩

/-! ## Runs -/

end LibConn.NestedPosts
