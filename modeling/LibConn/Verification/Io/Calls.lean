import LibConn.Model.Io

/-! # What single calls leave

`io_add`, `io_del` and the timeouts leave the rest of the io alone. An `io_close` that gets
the mutex closes the io and gives the mutex back; one that runs under it never returns. -/

namespace LibConn

variable {α β : Type} {c : Conn}

/-! ## Composition -/

@[simp] theorem Ran.after_conn (effects : List Effect) (r : Ran α) :
    (r.after effects).conn = r.conn := rfl

@[simp] theorem Ran.after_effects (effects : List Effect) (r : Ran α) :
    (r.after effects).effects = effects ++ r.effects := rfl

theorem Ran.andThen_none {r : Ran α} (h : r.value = none) (f : Conn → Ran β) :
    r.andThen f = ⟨r.conn, none, r.effects⟩ := by
  simp [Ran.andThen, h]

theorem Ran.andThen_some {r : Ran α} {a : α} (h : r.value = some a) (f : Conn → Ran β) :
    r.andThen f = (f r.conn).after r.effects := by
  simp [Ran.andThen, h]

/-- Dropping the value of a call changes nothing else. -/
theorem Ran.andThen_unit (r : Ran α) :
    r.andThen (fun c => (⟨c, some (), []⟩ : Ran Unit)) =
      ⟨r.conn, r.value.map fun _ => (), r.effects⟩ := by
  cases h : r.value with
  | none => rw [Ran.andThen_none h]; rfl
  | some a => rw [Ran.andThen_some h]; simp [Ran.after]

/-! ## The rest of the io -/

/-- The io without what `io_add`, `io_del` and the timeouts change. -/
def Io.rest (io : Io) : Io :=
  { io with cb := none, events := 0, timer := fun _ => none, timeout := fun _ => 0 }

@[simp] theorem ioAdd_rest (cb : EventCb) (event : Mask) :
    (ioAdd c cb event).io.rest = c.io.rest := by
  rw [ioAdd]
  split_ifs <;> rfl

@[simp] theorem ioDel_rest (event : Mask) : (ioDel c event).io.rest = c.io.rest := by
  rw [ioDel]
  split_ifs <;> rfl

@[simp] theorem ioRemoveTimeout_rest (kind : Timeout) :
    (ioRemoveTimeout kind c).io.rest = c.io.rest := by
  rw [ioRemoveTimeout]
  split <;> rfl

@[simp] theorem ioAdd_write_buf (cb : EventCb) (event : Mask) :
    (ioAdd c cb event).io.write_buf = c.io.write_buf :=
  (congrArg Io.write_buf (@ioAdd_rest c cb event) :)

@[simp] theorem ioAdd_write_mutex (cb : EventCb) (event : Mask) :
    (ioAdd c cb event).io.write_mutex = c.io.write_mutex :=
  (congrArg Io.write_mutex (@ioAdd_rest c cb event) :)

@[simp] theorem ioAdd_type (cb : EventCb) (event : Mask) :
    (ioAdd c cb event).io.type = c.io.type :=
  (congrArg Io.type (@ioAdd_rest c cb event) :)

@[simp] theorem ioAdd_fd (cb : EventCb) (event : Mask) :
    (ioAdd c cb event).io.fd = c.io.fd :=
  (congrArg Io.fd (@ioAdd_rest c cb event) :)

@[simp] theorem ioAdd_write_cb (cb : EventCb) (event : Mask) :
    (ioAdd c cb event).io.write_cb = c.io.write_cb :=
  (congrArg Io.write_cb (@ioAdd_rest c cb event) :)

@[simp] theorem ioAdd_closed (cb : EventCb) (event : Mask) :
    (ioAdd c cb event).io.closed = c.io.closed :=
  (congrArg Io.closed (@ioAdd_rest c cb event) :)

/-! ## Events and timers -/

/-- What `io_del` leaves of the events. -/
def delEvents (events event : Mask) : Mask :=
  if events &&& event ≠ 0 then events &&& ~~~event else events

theorem ioDel_events (c : Conn) (event : Mask) :
    (ioDel c event).io.events = delEvents c.io.events event := by
  rw [ioDel, delEvents]
  split_ifs <;> rfl

@[simp] theorem ioRemoveTimeout_events (kind : Timeout) (c : Conn) :
    (ioRemoveTimeout kind c).io.events = c.io.events := by
  rw [ioRemoveTimeout]
  split <;> rfl

theorem ioRemoveTimeout_slots (kind : Timeout) :
    (ioRemoveTimeout kind c).io.timer = Function.update c.io.timer kind none := by
  rw [ioRemoveTimeout]
  cases ht : c.io.timer kind with
  | none => exact (Function.update_eq_self_iff.mpr ht.symm).symm
  | some t => rfl

theorem ioRemoveTimeout_memory (kind : Timeout) :
    (ioRemoveTimeout kind c).loop.timer = c.loop.timer := by
  rw [ioRemoveTimeout]
  cases c.io.timer kind <;> rfl

/-! ## Closing -/

theorem ioClose_held (h : c.io.write_mutex = true) : ioClose c = ⟨c, none, []⟩ :=
  if_pos h

/-- What `io_close` does to an open io, up to `close_cb`. -/
def Conn.disarmed (c : Conn) : Conn :=
  let c := { c with io := { c.io with closed := true } }
  let c := ioDel (ioDel c eventRead) eventWrite
  let c := ioRemoveWriteTimeout (ioRemoveReadTimeout c)
  ioRemoveCloseTimeout (ioRemoveConnectTimeout c)

theorem ioClose_open (hm : c.io.write_mutex = false) (hc : c.io.closed = false) :
    ioClose c =
      ⟨freeIo (if c.disarmed.io.fd ≠ 0 then closeSocket c.disarmed else c.disarmed), some (),
        if c.disarmed.io.close_cb then [.closeCb] else []⟩ := by
  rw [ioClose, if_neg (by simp [hm]), if_neg (by simp [hc])]
  rfl

theorem Conn.disarmed_rest (c : Conn) : c.disarmed.io.rest = { c.io.rest with closed := true } := by
  simp only [Conn.disarmed, ioRemoveReadTimeout, ioRemoveWriteTimeout, ioRemoveConnectTimeout,
    ioRemoveCloseTimeout, ioRemoveTimeout_rest, ioDel_rest]
  rfl

theorem disarmed_events (c : Conn) :
    c.disarmed.io.events = delEvents (delEvents c.io.events eventRead) eventWrite := by
  simp only [Conn.disarmed, ioRemoveReadTimeout, ioRemoveWriteTimeout, ioRemoveConnectTimeout,
    ioRemoveCloseTimeout, ioRemoveTimeout_events, ioDel_events]

/-- An `io_close` that gets the mutex returns, with the io closed and the mutex free. -/
structure Closes (c : Conn) (ran : Ran α) (value : α) : Prop where
  value_eq : ran.value = some value
  closed : ran.conn.io.closed = true
  free : ran.conn.io.write_mutex = false
  no_write : ∀ bytes, Effect.write bytes ∉ ran.effects

theorem ioClose_closes (h : c.io.write_mutex = false) : Closes c (ioClose c) () := by
  cases hc : c.io.closed with
  | true =>
      have hrun : ioClose c = ⟨c, some (), []⟩ := by simp [ioClose, h, hc]
      rw [hrun]
      exact ⟨rfl, hc, h, by simp⟩
  | false =>
      rw [ioClose_open h hc]
      have hclosed : c.disarmed.io.closed = true := (congrArg Io.closed c.disarmed_rest :)
      refine ⟨rfl, ?_, rfl, ?_⟩
      · dsimp only
        split_ifs <;> exact hclosed
      · intro bytes
        dsimp only
        split_ifs <;> simp

theorem closeAndReturn_closes (h : c.io.write_mutex = false) (value : ℤ) :
    Closes c (closeAndReturn c value) value := by
  have hclose := ioClose_closes h
  rw [closeAndReturn, Ran.andThen_some hclose.value_eq]
  exact ⟨rfl, hclose.closed, hclose.free, by simpa [Ran.after] using hclose.no_write⟩

/-! ## Flushing -/

/-- The io with which `io_write_cb` goes to work: locked and stamped. -/
def Conn.stamped (c : Conn) (now : ℕ) : Conn :=
  { c.lock with io := { c.lock.io with last_write_time := now } }

theorem ioWriteCb_open (hm : c.io.write_mutex = false) (hc : c.io.closed = false)
    (r : WriteResult) (now : ℕ) :
    ioWriteCb c r now =
      if bufferIsEmpty c.io.write_buf then ⟨(c.stamped now).unlock, some (), []⟩
      else Ran.after [.write c.io.write_buf.unsent] <|
        if int32 r.ret < 0 then
          if r.again c.io.type then ⟨(c.stamped now).unlock, some (), []⟩
          else ⟨c.stamped now, none, []⟩
        else ioFlushed (c.stamped now) (int32 r.ret) := by
  rw [ioWriteCb, if_neg (by simp [hc]), if_neg (by simp [hm])]
  -- the `io_close` in it waits for the mutex
  rfl

/-! ## Writing to an open io -/

section Write

variable {buf : List UInt8} {r : WriteResult} {now : ℕ}

/-- Where the two branches of `io_write` are reached. -/
theorem ioWrite_empty (hfree : c.io.write_mutex = false) (hopen : c.io.closed = false)
    (hempty : bufferIsEmpty c.io.write_buf = true) :
    ioWrite c buf r now =
      if c.io.type = .ssl then ioWriteSsl c.lock buf r else ioWriteTcp c.lock buf r now := by
  have hclosed' : ¬ c.lock.io.closed = true := by simp [Conn.lock, hopen]
  have hempty' : ¬ bufferIsEmpty c.lock.io.write_buf = false := by simp [Conn.lock, hempty]
  simp only [ioWrite, hfree, Bool.false_eq_true, ite_false, if_neg hclosed', if_neg hempty']
  rfl

/-- Behind bytes that wait already, the payload is queued. -/
theorem ioWrite_busy (hfree : c.io.write_mutex = false) (hopen : c.io.closed = false)
    (hbusy : bufferIsEmpty c.io.write_buf = false) :
    ioWrite c buf r now =
      match bufferAppendData c.io.write_buf buf with
      | none => closeAndReturn c.lock.unlock (-1)
      | some write_buf => ⟨(c.lock.setWriteBuf write_buf).unlock, some 0, []⟩ := by
  have hheld : ¬ c.io.write_mutex = true := by simp [hfree]
  have hclosed' : ¬ c.lock.io.closed = true := by simp [Conn.lock, hopen]
  exact (if_neg hheld).trans ((if_neg hclosed').trans (if_pos hbusy))

end Write

/-! ## On a closed io -/

theorem ioWrite_closed (hc : c.io.closed = true) (hfree : c.io.write_mutex = false)
    (buf : List UInt8) (r : WriteResult) (now : ℕ) :
    ioWrite c buf r now = ⟨c.lock.unlock, some (-1), []⟩ := by
  rw [ioWrite, if_neg (by simp [hfree])]
  exact if_pos hc

theorem ioWriteCb_closed (hc : c.io.closed = true) (r : WriteResult) (now : ℕ) :
    ioWriteCb c r now = ⟨c, some (), []⟩ :=
  if_pos hc

theorem ioClose_closed (hc : c.io.closed = true) (hfree : c.io.write_mutex = false) :
    ioClose c = ⟨c, some (), []⟩ := by
  rw [ioClose, if_neg (by simp [hfree])]
  exact if_pos hc

end LibConn
