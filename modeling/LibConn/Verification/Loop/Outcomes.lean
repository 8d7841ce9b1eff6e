import LibConn.Verification.Heap.Elements
import LibConn.Verification.Io.Calls
import LibConn.Verification.Io.Interest
import LibConn.Model.TimerSystem

/-! # How a call on an io ends

A call of `io_write`, `io_write_cb` or `io_close` that returns either leaves the timers of
the io and of the loop as they were, or it closes the io: then the io has no timers any
more, each of them occurs in the heap once less, and `close_cb` has been called. -/

namespace LibConn

variable {α β : Type} {c c' c'' : Conn}

/-! ## The timers stay -/

/-- The io has the timers that it had, and is closed or open as before. -/
structure SameTimers (io io' : Io) : Prop where
  timer : io'.timer = io.timer
  closed : io'.closed = io.closed
  close_cb : io'.close_cb = io.close_cb
  narrow : Narrow io.events → Narrow io'.events

theorem SameTimers.refl (io : Io) : SameTimers io io :=
  ⟨rfl, rfl, rfl, id⟩

theorem SameTimers.trans {io io' io'' : Io} (h : SameTimers io io') (h' : SameTimers io' io'') :
    SameTimers io io'' :=
  ⟨h'.timer.trans h.timer, h'.closed.trans h.closed, h'.close_cb.trans h.close_cb,
    h'.narrow ∘ h.narrow⟩

/-- Neither the timers of the io nor those of the loop have changed. -/
structure Kept (c c' : Conn) : Prop extends SameTimers c.io c'.io where
  memory : c'.loop.timer = c.loop.timer
  heap : c'.loop.timers = c.loop.timers

theorem Kept.refl (c : Conn) : Kept c c :=
  ⟨.refl c.io, rfl, rfl⟩

theorem Kept.trans (h : Kept c c') (h' : Kept c' c'') : Kept c c'' :=
  ⟨h.toSameTimers.trans h'.toSameTimers, h'.memory.trans h.memory, h'.heap.trans h.heap⟩

theorem Kept.lock (c : Conn) : Kept c c.lock :=
  ⟨⟨rfl, rfl, rfl, id⟩, rfl, rfl⟩

theorem Kept.unlock (c : Conn) : Kept c c.unlock :=
  ⟨⟨rfl, rfl, rfl, id⟩, rfl, rfl⟩

theorem Kept.setWriteBuf (c : Conn) (buf : Buffer) : Kept c (c.setWriteBuf buf) :=
  ⟨⟨rfl, rfl, rfl, id⟩, rfl, rfl⟩

theorem Kept.freeIo (c : Conn) : Kept c (freeIo c) :=
  ⟨⟨rfl, rfl, rfl, id⟩, rfl, rfl⟩

theorem Kept.closeSocket (c : Conn) : Kept c (closeSocket c) :=
  ⟨⟨rfl, rfl, rfl, id⟩, rfl, rfl⟩

theorem Kept.ioAdd (c : Conn) (cb : EventCb) (event : EventMask) :
    Kept c (ioAdd c cb event.bits) := by
  rw [LibConn.ioAdd]
  split_ifs
  · exact ⟨⟨rfl, rfl, rfl, (Narrow.or · event)⟩, rfl, rfl⟩
  · exact ⟨⟨rfl, rfl, rfl, id⟩, rfl, rfl⟩

theorem Kept.ioDel (c : Conn) (event : EventMask) : Kept c (ioDel c event.bits) := by
  rw [LibConn.ioDel]
  split_ifs
  · exact ⟨⟨rfl, rfl, rfl, (Narrow.diff · event)⟩, rfl, rfl⟩
  · exact .refl c

/-! ## The io is closed -/

/-- The call has closed the io and has taken its timers out of the heap. -/
structure Shut (c c' : Conn) : Prop where
  before : c.io.closed = false
  closed : c'.io.closed = true
  close_cb : c'.io.close_cb = c.io.close_cb
  timer : c'.io.timer = fun _ => none
  quiet : Narrow c.io.events → c'.io.events = 0
  memory : c'.loop.timer = c.loop.timer
  count_le : ∀ t, c'.loop.timers.array.count t ≤ c.loop.timers.array.count t
  taken : ∀ kind t, c.io.timer kind = some t →
    c'.loop.timers.array.count t ≤ c.loop.timers.array.count t - 1

theorem Kept.shut (h : Kept c c') (h' : Shut c' c'') : Shut c c'' := by
  refine ⟨h.closed ▸ h'.before, h'.closed, h'.close_cb.trans h.close_cb, h'.timer,
    h'.quiet ∘ h.narrow, h'.memory.trans h.memory, ?_, ?_⟩
  · exact fun t => h.heap ▸ h'.count_le t
  · exact fun kind t ht => h.heap ▸ h'.taken kind t (h.timer ▸ ht)

theorem Shut.kept (h : Shut c c') (h' : Kept c' c'') (hquiet : c''.io.events = c'.io.events) :
    Shut c c'' := by
  refine ⟨h.before, h'.closed.trans h.closed, h'.close_cb.trans h.close_cb,
    h'.timer.trans h.timer, fun hn => hquiet.trans (h.quiet hn), h'.memory.trans h.memory, ?_, ?_⟩
  · exact fun t => h'.heap ▸ h.count_le t
  · exact fun kind t ht => h'.heap ▸ h.taken kind t ht

section Disarming

variable (kind : Timeout)

theorem heapRemove_count (compare : ℕ → ℕ → Bool) (heap : Heap ℕ) (node t : ℕ) :
    (heapRemove compare heap node).array.count t =
      heap.array.count t - if node = t then 1 else 0 := by
  rw [(heapRemove_perm compare heap node).count_eq, List.count_erase]
  simp

theorem ioRemoveTimeout_count_le (t : ℕ) :
    (ioRemoveTimeout kind c).loop.timers.array.count t ≤ c.loop.timers.array.count t := by
  rw [ioRemoveTimeout]
  cases c.io.timer kind with
  | none => exact le_rfl
  | some u => exact (heapRemove_count _ _ u t).trans_le (Nat.sub_le _ _)

theorem ioRemoveTimeout_taken {t : ℕ} (ht : c.io.timer kind = some t) :
    (ioRemoveTimeout kind c).loop.timers.array.count t = c.loop.timers.array.count t - 1 := by
  rw [ioRemoveTimeout, ht]
  exact (heapRemove_count _ _ t t).trans (by rw [if_pos rfl])

end Disarming

theorem Narrow.cleared {events : Mask} (h : Narrow events) :
    delEvents (delEvents events eventRead) eventWrite = 0 := by
  rcases h with rfl | rfl | rfl | rfl <;> decide

theorem Conn.disarmed_shut (hopen : c.io.closed = false) : Shut c c.disarmed := by
  let c₀ : Conn := { c with io := { c.io with closed := true } }
  let c₁ : Conn := ioDel (ioDel c₀ eventRead) eventWrite
  let c₂ := ioRemoveTimeout .read c₁
  let c₃ := ioRemoveTimeout .write c₂
  let c₄ := ioRemoveTimeout .connect c₃
  have heq : c.disarmed = ioRemoveTimeout .close c₄ := rfl
  have hkept : Kept c₀ c₁ := (Kept.ioDel c₀ .read).trans (Kept.ioDel _ .write)
  have hrest : c.disarmed.io.rest = { c.io.rest with closed := true } := c.disarmed_rest
  have hheap : c₁.loop.timers = c.loop.timers := hkept.heap
  have hle₂ : ∀ t, c₂.loop.timers.array.count t ≤ c.loop.timers.array.count t := by
    intro t
    rw [← hheap]
    exact ioRemoveTimeout_count_le .read t
  have hle₃ : ∀ t, c₃.loop.timers.array.count t ≤ c₂.loop.timers.array.count t :=
    ioRemoveTimeout_count_le .write
  have hle₄ : ∀ t, c₄.loop.timers.array.count t ≤ c₃.loop.timers.array.count t :=
    ioRemoveTimeout_count_le .connect
  have hle₅ : ∀ t, c.disarmed.loop.timers.array.count t ≤ c₄.loop.timers.array.count t :=
    ioRemoveTimeout_count_le .close
  have ht₁ : c₁.io.timer = c.io.timer := hkept.timer
  have ht₂ : c₂.io.timer = Function.update c₁.io.timer .read none := ioRemoveTimeout_slots .read
  have ht₃ : c₃.io.timer = Function.update c₂.io.timer .write none :=
    ioRemoveTimeout_slots .write
  have ht₄ : c₄.io.timer = Function.update c₃.io.timer .connect none :=
    ioRemoveTimeout_slots .connect
  have ht₅ : c.disarmed.io.timer = Function.update c₄.io.timer .close none :=
    ioRemoveTimeout_slots .close
  refine ⟨hopen, (congrArg Io.closed hrest :), (congrArg Io.close_cb hrest :), ?_, ?_, ?_, ?_, ?_⟩
  · funext kind
    rw [ht₅, ht₄, ht₃, ht₂]
    cases kind <;> simp
  · intro hn
    rw [disarmed_events, hn.cleared]
  · rw [heq, ioRemoveTimeout_memory, ioRemoveTimeout_memory, ioRemoveTimeout_memory,
      ioRemoveTimeout_memory, hkept.memory]
  · exact fun t => (hle₅ t).trans ((hle₄ t).trans ((hle₃ t).trans (hle₂ t)))
  · intro kind t ht
    have h₂ := hle₂ t
    have h₃ := hle₃ t
    have h₄ := hle₄ t
    have h₅ := hle₅ t
    -- each kind is removed by one of the four calls, and the others do not add anything
    cases kind with
    | read =>
        have htaken : c₂.loop.timers.array.count t = c₁.loop.timers.array.count t - 1 :=
          ioRemoveTimeout_taken .read (ht₁ ▸ ht)
        rw [hheap] at htaken
        omega
    | write =>
        have hslot : c₂.io.timer .write = some t := by simp [ht₂, ht₁, ht]
        have htaken : c₃.loop.timers.array.count t = c₂.loop.timers.array.count t - 1 :=
          ioRemoveTimeout_taken .write hslot
        omega
    | connect =>
        have hslot : c₃.io.timer .connect = some t := by simp [ht₃, ht₂, ht₁, ht]
        have htaken : c₄.loop.timers.array.count t = c₃.loop.timers.array.count t - 1 :=
          ioRemoveTimeout_taken .connect hslot
        omega
    | close =>
        have hslot : c₄.io.timer .close = some t := by simp [ht₄, ht₃, ht₂, ht₁, ht]
        have htaken : c.disarmed.loop.timers.array.count t = c₄.loop.timers.array.count t - 1 :=
          ioRemoveTimeout_taken .close hslot
        omega

/-! ## The two outcomes -/

/-- How often `close_cb` is called, when it is set. -/
def Conn.closeCalls (c : Conn) : ℕ :=
  if c.io.close_cb then 1 else 0

/-- The timers stay or the io is closed; `closes` is how often `close_cb` is called. -/
inductive Ends (closes : ℕ) (c c' : Conn) : Prop where
  | keeps (h : Kept c c') (hcloses : closes = 0)
  | shuts (h : Shut c c') (hcloses : closes = c.closeCalls)

theorem Kept.ends {closes : ℕ} (h : Kept c c') (h' : Ends closes c' c'') : Ends closes c c'' := by
  cases h' with
  | keeps hkept hcloses => exact .keeps (h.trans hkept) hcloses
  | shuts hshut hcloses =>
      refine .shuts (h.shut hshut) (hcloses.trans ?_)
      rw [Conn.closeCalls, h.close_cb, Conn.closeCalls]

/-- How the call `r` on `c` ends. -/
def Outcome (c : Conn) (r : Ran α) : Prop :=
  Ends (r.effects.count .closeCb) c r.conn

theorem Kept.outcome {r : Ran α} (h : Kept c c') (h' : Outcome c' r) : Outcome c r :=
  h.ends h'

theorem Outcome.after {r : Ran α} {effects : List Effect} (h : Outcome c r)
    (heffects : effects.count .closeCb = 0) : Outcome c (r.after effects) := by
  rw [Outcome, Ran.after_effects, List.count_append, heffects, zero_add]
  exact h

theorem writeCb_no_close (c : Conn) (offset len : ℕ) :
    (writeCb c offset len).count .closeCb = 0 := by
  rw [writeCb]
  split_ifs <;> rfl

theorem ioClose_outcome (hfree : c.io.write_mutex = false) : Outcome c (ioClose c) := by
  cases hc : c.io.closed with
  | true =>
      have hrun : ioClose c = ⟨c, some (), []⟩ := by simp [ioClose, hfree, hc]
      rw [hrun]
      exact .keeps (.refl c) rfl
  | false =>
      rw [ioClose_open hfree hc]
      have hshut := Conn.disarmed_shut hc
      refine .shuts ?_ ?_
      · refine hshut.kept ?_ ?_
        · dsimp only
          split_ifs
          · exact (Kept.closeSocket _).trans (.freeIo _)
          · exact .freeIo _
        · dsimp only
          split_ifs <;> rfl
      · rw [Conn.closeCalls, ← hshut.close_cb]
        dsimp only
        split_ifs <;> rfl

theorem closeAndReturn_outcome (hfree : c.io.write_mutex = false) (value : ℤ) :
    Outcome c (closeAndReturn c value) := by
  have hclose := ioClose_closes hfree
  rw [closeAndReturn, Ran.andThen_some hclose.value_eq]
  rw [Outcome, Ran.after_effects, List.append_nil]
  exact ioClose_outcome hfree

theorem ioWriteSsl_outcome (c : Conn) (buf : List UInt8) (r : WriteResult) :
    Outcome c (ioWriteSsl c buf r) := by
  have hclose : ∀ value, Outcome c (closeAndReturn c.unlock value) :=
    fun value => (Kept.unlock c).outcome (closeAndReturn_outcome rfl value)
  refine Outcome.after ?_ rfl
  dsimp only
  split_ifs
  · exact .keeps (.refl c) rfl
  · exact hclose _
  · refine Outcome.after ?_ (writeCb_no_close c _ _)
    cases bufferAppendData c.io.write_buf (buf.drop (int32 r.ret).toNat) with
    | none => exact hclose _
    | some write_buf =>
        exact .keeps ((Kept.setWriteBuf c write_buf).trans (.ioAdd _ .ioWriteCb .write)) rfl
  · exact .keeps (.unlock c) (writeCb_no_close c _ _)

theorem ioWriteDone_kept (c : Conn) (nwrite : ℤ) (now : ℕ) :
    Outcome c (ioWriteDone c nwrite now) := by
  refine .keeps ?_ rfl
  rw [ioWriteDone]
  dsimp only
  split_ifs <;> exact ⟨⟨rfl, rfl, rfl, id⟩, rfl, rfl⟩

theorem ioWriteTcp_outcome (c : Conn) (buf : List UInt8) (r : WriteResult) (now : ℕ) :
    Outcome c (ioWriteTcp c buf r now) := by
  have hclose : ∀ value, Outcome c (closeAndReturn c.unlock value) :=
    fun value => (Kept.unlock c).outcome (closeAndReturn_outcome rfl value)
  have hqueue : ∀ write_buf, Kept c (ioAdd (c.setWriteBuf write_buf) .ioWriteCb eventWrite) :=
    fun write_buf => (Kept.setWriteBuf c write_buf).trans (.ioAdd _ .ioWriteCb .write)
  rw [ioWriteTcp]
  by_cases hfd : c.io.fd = -1
  · rw [if_pos hfd]
    exact .keeps (.unlock c) rfl
  · rw [if_neg hfd]
    refine Outcome.after ?_ rfl
    dsimp only
    by_cases hneg : int32 r.ret < 0
    · rw [if_pos hneg]
      split_ifs
      · cases bufferAppendData c.io.write_buf buf with
        | none => exact hclose _
        | some write_buf => exact .keeps ((hqueue write_buf).trans (.unlock _)) rfl
      · exact hclose _
    · rw [if_neg hneg]
      split_ifs
      · refine Outcome.after ?_ (writeCb_no_close c _ _)
        cases bufferAppendData c.io.write_buf (buf.drop (int32 r.ret).toNat) with
        | none => exact hclose _
        | some write_buf => exact (hqueue write_buf).outcome (ioWriteDone_kept _ _ now)
      · exact (ioWriteDone_kept c _ now).after (writeCb_no_close c _ _)

theorem ioWrite_outcome {buf : List UInt8} {r : WriteResult} {now : ℕ}
    (hreturns : (ioWrite c buf r now).value ≠ none) : Outcome c (ioWrite c buf r now) := by
  have hfree : c.io.write_mutex = false := by
    by_contra h
    exact hreturns (by simp [ioWrite, h])
  have hlock : Kept c c.lock := .lock c
  have hunlock : Kept c c.lock.unlock := hlock.trans (.unlock _)
  rw [ioWrite, if_neg (by simp [hfree])]
  dsimp only
  split_ifs
  · exact .keeps hunlock rfl
  · cases bufferAppendData c.lock.io.write_buf buf with
    | none => exact hunlock.outcome (closeAndReturn_outcome rfl _)
    | some write_buf =>
        exact .keeps ((hlock.trans (.setWriteBuf _ write_buf)).trans (.unlock _)) rfl
  · exact hlock.outcome (ioWriteSsl_outcome _ buf r)
  · exact hlock.outcome (ioWriteTcp_outcome _ buf r now)

theorem ioFlushed_outcome (c : Conn) (nwrite : ℤ) : Outcome c (ioFlushed c nwrite) := by
  refine .keeps ((Kept.setWriteBuf c _).trans (.unlock _)) ?_
  rw [ioFlushed]
  dsimp only
  split_ifs <;> rfl

/-- `io_write_cb` never closes the io: its `io_close` does not return. -/
theorem ioWriteCb_outcome {r : WriteResult} {now : ℕ}
    (hreturns : (ioWriteCb c r now).value ≠ none) : Outcome c (ioWriteCb c r now) := by
  cases hc : c.io.closed with
  | true =>
      rw [ioWriteCb, if_pos hc]
      exact .keeps (.refl c) rfl
  | false =>
      have hfree : c.io.write_mutex = false := by
        by_contra h
        exact hreturns (by simp [ioWriteCb, hc, h])
      have hkept : Kept c (c.stamped now) := ⟨⟨rfl, rfl, rfl, id⟩, rfl, rfl⟩
      rw [ioWriteCb_open hfree hc] at hreturns ⊢
      split_ifs at hreturns ⊢ with hempty hneg hagain
      · exact .keeps (hkept.trans (.unlock _)) rfl
      · exact .keeps (hkept.trans (.unlock _)) rfl
      · exact absurd rfl hreturns
      · exact (hkept.outcome (ioFlushed_outcome _ _)).after rfl

/-! ## Setting and removing timeouts -/

/-- The callback that `io_set_read_timeout` and its siblings give to the timer. -/
def Timeout.timerCb : Timeout → TimerCb
  | .read => .readTimeout
  | .write => .writerTimeout
  | .close => .closeTimeout
  | .connect => .connectTimeout

theorem Timeout.timerCb_injective : Function.Injective Timeout.timerCb := by
  intro kind kind' h
  cases kind <;> cases kind' <;> first | rfl | cases h

theorem ioSetTimeoutOf_timerCb (kind : Timeout) : ioSetTimeoutOf kind =
    ioSetTimeout kind (if kind = .read ∨ kind = .write then ioRemoveTimeout kind else id)
      kind.timerCb := by
  cases kind <;> rfl

/-- `event_reset` has been done to the timer, and its deadline is another one. -/
def Timer.reset (timer : Timer) (next_timeout : ℕ) : Timer :=
  { timer with next_timeout := next_timeout, destory := false, active := true, pending := false }

/-- `reset_timer` on the timer `t`. -/
structure Reset (t : ℕ) (loop loop' : Loop) : Prop where
  allocated : (loop.timer t).allocated = true
  memory : ∃ next_timeout,
    loop'.timer = Function.update loop.timer t ((loop.timer t).reset next_timeout)
  heap : ∀ u ∈ loop'.timers.array, u = t ∨ u ∈ loop.timers.array

theorem heapInsert_subset {compare : ℕ → ℕ → Bool} {heap : Heap ℕ} {node t : ℕ}
    (h : t ∈ (heapInsert compare heap node).array) : t = node ∨ t ∈ heap.array := by
  rw [heapInsert] at h
  split_ifs at h
  · exact .inr h
  · have hmem := (heapifyUp_perm heap.size (heap.array ++ [node]) heap.size).mem_iff.mp h
    rcases List.mem_append.mp hmem with hold | hnew
    · exact .inr hold
    · exact .inl (List.mem_singleton.mp hnew)

theorem heapPop_subset {compare : ℕ → ℕ → Bool} {heap : Heap ℕ} {t : ℕ}
    (h : t ∈ (heapPop compare heap).array) : t ∈ heap.array :=
  List.mem_of_mem_tail ((heapPop_perm compare heap).mem_iff.mp h)

theorem resetTimer_reset {loop loop' : Loop} {t : ℕ} {timeout : ℤ}
    (h : resetTimer loop t timeout = some loop') : Reset t loop loop' := by
  rw [resetTimer, Option.ite_none_right_eq_some] at h
  obtain ⟨⟨halloc, -⟩, h⟩ := h
  obtain rfl := Option.some.inj h
  refine ⟨halloc, ⟨u64 (loop.cur_ms + timeout), ?_⟩, ?_⟩
  · cases (loop.timer t).destory <;>
      simp [eventReset, Loop.setTimer, Loop.insertTimer, Loop.popTimer, Timer.reset]
  · intro u hu
    rcases heapInsert_subset hu with rfl | hmem
    · exact .inl rfl
    · cases hd : (loop.timer t).destory with
      | false =>
          simp only [hd, if_true, Loop.setTimer] at hmem
          exact .inr (heapPop_subset hmem)
      | true =>
          simp only [hd, Bool.true_eq_false, if_false, Loop.setTimer] at hmem
          exact .inr hmem

theorem Reset.kept {t : ℕ} {loop : Loop} (h : Reset t loop c.loop) (h' : Kept c c') :
    Reset t loop c'.loop := by
  refine ⟨h.allocated, ?_, ?_⟩
  · rw [h'.memory]
    exact h.memory
  · rw [h'.heap]
    exact h.heap

/-- The timer that `add_timer` makes for a timeout of the io `i`. -/
structure Armed (i : ℕ) (kind : Timeout) (timer : Timer) : Prop where
  allocated : timer.allocated = true
  privdata : timer.privdata = some i
  cb : timer.cb = some kind.timerCb
  repeats : timer.repeats = 1
  pending : timer.pending = false
  destory : timer.destory = false

/-- The io `i` gets a timer of the given kind in the block `t`. -/
structure Arms (i : ℕ) (kind : Timeout) (t : ℕ) (c c' : Conn) : Prop where
  before : c.io.timer kind = none
  timer : c'.io.timer = Function.update c.io.timer kind (some t)
  closed : c'.io.closed = c.io.closed
  close_cb : c'.io.close_cb = c.io.close_cb
  narrow : Narrow c.io.events → Narrow c'.io.events
  free : (c.loop.timer t).allocated = false
  memory : ∃ timer, Armed i kind timer ∧ c'.loop.timer = Function.update c.loop.timer t timer
  heap : ∀ u ∈ c'.loop.timers.array, u = t ∨ u ∈ c.loop.timers.array

theorem Arms.kept {i t : ℕ} {kind : Timeout} (h : Arms i kind t c c') (h' : Kept c' c'') :
    Arms i kind t c c'' := by
  refine ⟨h.before, h'.timer.trans h.timer, h'.closed.trans h.closed,
    h'.close_cb.trans h.close_cb, h'.narrow ∘ h.narrow, h.free, ?_, ?_⟩
  · rw [h'.memory]
    exact h.memory
  · rw [h'.heap]
    exact h.heap

/-- Setting a timeout: a negative one is passed on, a timer that is there is reset. -/
theorem ioSetTimeout_cases {kind : Timeout} {negative : Conn → Conn} {self : ℕ} {timeout : ℤ}
    {now : ℕ} {mem : Option ℕ} (hmem : c.loop.memFree mem)
    (h : ioSetTimeout kind negative kind.timerCb self c timeout now mem = some c') :
    (timeout < 0 ∧ c' = negative c) ∨
      (∃ t, c.io.timer kind = some t ∧ c'.io = c.io ∧ Reset t c.loop c'.loop) ∨
      ∃ t, Arms self kind t c c' := by
  rw [ioSetTimeout] at h
  by_cases hneg : timeout < 0
  · rw [if_pos hneg] at h
    exact .inl ⟨hneg, (Option.some.inj h).symm⟩
  rw [if_neg hneg] at h
  cases htimer : c.io.timer kind with
  | some t =>
      simp only [htimer, Option.map_eq_some_iff] at h
      obtain ⟨loop, hreset, rfl⟩ := h
      exact .inr (.inl ⟨t, rfl, rfl, resetTimer_reset hreset⟩)
  | none =>
      simp only [htimer] at h
      unfold addTimer at h
      by_cases hzero : timeout = 0
      · simp [hzero] at h
      rw [if_neg hzero] at h
      cases mem with
      | none => simp at h
      | some t =>
          obtain rfl := Option.some.inj h
          refine .inr (.inr ⟨t, htimer, rfl, rfl, rfl, id, hmem t rfl, ?_, ?_⟩)
          · let timer : Timer :=
              { Timer.zero with
                timeout := u64 timeout
                next_timeout := u64 (now + timeout)
                cb := some kind.timerCb
                repeats := 1
                privdata := some self }
            refine ⟨timer, ⟨rfl, rfl, rfl, rfl, rfl, rfl⟩, ?_⟩
            simp [Loop.setTimer, Loop.insertTimer, updateLoopTimer, timer]
          · exact fun u hu => heapInsert_subset hu

/-- The io loses a timer of its own. -/
structure Disarms (kind : Timeout) (c c' : Conn) : Prop where
  timer : c'.io.timer = Function.update c.io.timer kind none
  closed : c'.io.closed = c.io.closed
  close_cb : c'.io.close_cb = c.io.close_cb
  events : c'.io.events = c.io.events
  memory : c'.loop.timer = c.loop.timer
  heap : ∀ u ∈ c'.loop.timers.array, u ∈ c.loop.timers.array

theorem ioRemoveTimeout_disarms (kind : Timeout) (c : Conn) :
    Disarms kind c (ioRemoveTimeout kind c) := by
  have hrest := @ioRemoveTimeout_rest c kind
  refine ⟨ioRemoveTimeout_slots kind, (congrArg Io.closed hrest :),
    (congrArg Io.close_cb hrest :), ioRemoveTimeout_events kind c, ioRemoveTimeout_memory kind, ?_⟩
  intro u hu
  have hle := ioRemoveTimeout_count_le (c := c) kind u
  exact List.count_pos_iff.mp ((List.count_pos_iff.mpr hu).trans_le hle)

/-- What a function does to the io `i` and to the timers of the loop, and how often it calls
`close_cb`. -/
inductive Change (i closes : ℕ) (c c' : Conn) : Prop where
  | ends (h : Ends closes c c')
  | resets (t : ℕ)
      (howns : (∃ kind, c.io.timer kind = some t) ∨ (c.loop.timer t).privdata = some i)
      (hio : SameTimers c.io c'.io) (h : Reset t c.loop c'.loop) (hcloses : closes = 0)
  | arms (kind : Timeout) (t : ℕ) (h : Arms i kind t c c') (hcloses : closes = 0)
  | disarms (kind : Timeout) (hkind : kind ≠ .connect) (h : Disarms kind c c')
      (hcloses : closes = 0)

end LibConn
