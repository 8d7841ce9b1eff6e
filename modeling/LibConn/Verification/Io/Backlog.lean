import LibConn.Verification.Io.Reports

/-! # Closing for backlog

The room in the write buffer is counted from `tail`, which goes back to the front only when
the buffer is empty. A payload that would have room behind the bytes that wait may then be
refused, and `io_write` closes the io. -/

namespace LibConn

open LibConn.Memory
open LibConn.Run

/-- No `io_write` has closed the io while there was room for what would have been waiting. -/
def NotEarly (s : WriteHistory) : Prop :=
  s.unfounded = false

/-- A payload that is queued fits behind `tail`, or it would not fit behind `tail - head` bytes
either; a count beyond `int` leaves too much unsent. -/
def FitsBehind (s : WriteHistory) : IoCall → Prop
  | .write payload r _ =>
      let write_buf := s.sys.conn.io.write_buf
      s.sys.conn.io.closed = false →
        if bufferIsEmpty write_buf then
          2 ^ 31 ≤ r.ret → write_buf.maxSize < payload.bytes.length - r.ret.toNat
        else
          write_buf.tail + payload.bytes.length ≤ write_buf.maxSize ∨
            write_buf.maxSize < write_buf.tail - write_buf.head + payload.bytes.length
  | _ => True

/-! ## Buffers that are empty -/

section Reset

variable {write_buf : Buffer} {payload : List UInt8}

/-- A buffer that is empty starts at the front. -/
def Buffer.Reset (write_buf : Buffer) : Prop :=
  bufferIsEmpty write_buf = true → write_buf.tail = 0

theorem Buffer.Reset.appended (h : write_buf.Reset) (hfits : write_buf.Fits)
    (hsize : payload.length < 2 ^ 63) : (write_buf.appended payload).Reset := by
  have hmax : maxIoBufSize = 2097152 := rfl
  obtain ⟨hhead, htail, heq⟩ := hfits
  have hsum : u64 (write_buf.tail + payload.length) = write_buf.tail + payload.length := by
    exact_mod_cast u64_of_lt (n := write_buf.tail + payload.length) (by omega)
  intro hempty
  have hends : write_buf.head = u64 (write_buf.tail + payload.length) := of_decide_eq_true hempty
  have hzero : write_buf.tail = 0 := h (by simp only [bufferIsEmpty, decide_eq_true_eq]; omega)
  change u64 (write_buf.tail + payload.length) = 0
  omega

theorem Buffer.Reset.directRest (h : write_buf.Reset) (hfits : write_buf.Fits)
    (hsize : payload.length < 2 ^ 63) (r : WriteResult) :
    (directRest write_buf payload r).Reset := by
  rw [LibConn.directRest]
  split_ifs
  · exact h.appended hfits (by rw [List.length_drop]; omega)
  · exact h

theorem Buffer.Reset.flushRest (h : write_buf.Reset) (n : ℤ) :
    (flushRest write_buf n).Reset := by
  rw [LibConn.flushRest]
  split_ifs with hneg hall
  · exact h
  · exact fun _ => rfl
  · intro hempty
    have hends : write_buf.head + n.toNat = write_buf.tail := by simpa [bufferIsEmpty] using hempty
    omega

end Reset

/-! ## When an `io_write` closes -/

section Full

variable {write_buf : Buffer} {payload : List UInt8} {r : WriteResult}

theorem busy_full_iff (hfits : write_buf.Fits) (hsize : payload.length < 2 ^ 63) :
    write_buf.maxSize < u64 (write_buf.tail + payload.length) ↔
      write_buf.maxSize < write_buf.tail + payload.length := by
  have hmax : maxIoBufSize = 2097152 := rfl
  obtain ⟨-, htail, heq⟩ := hfits
  have hsum : u64 (write_buf.tail + payload.length) = write_buf.tail + payload.length := by
    exact_mod_cast u64_of_lt (n := write_buf.tail + payload.length) (by omega)
  rw [hsum]

/-- Behind an empty buffer, the io is closed for what has no room, unless the count does not
fit an `int`: then it is always closed. -/
theorem direct_full_iff (hfits : write_buf.Fits) (hzero : write_buf.tail = 0)
    (hsize : payload.length < 2 ^ 63)
    (hlegal : r.ret = -1 ∨ (0 ≤ r.ret ∧ r.ret ≤ payload.length))
    (hagain : r.ret = -1 → r.errno.again = true) :
    directFull write_buf payload r ↔
      2 ^ 31 ≤ r.ret ∨ write_buf.maxSize < payload.length - r.ret.toNat := by
  have hmax : maxIoBufSize = 2097152 := rfl
  have heq := hfits.max_eq
  have hbounds := int32_bounds r.ret
  rw [directFull]
  generalize int32 r.ret = n at *
  rw [busy_full_iff hfits (by rw [List.length_drop]; omega), List.length_drop, hzero]
  by_cases hfail : r.ret = -1
  · have hyes := hagain hfail
    simp only [hyes, Bool.true_eq_false, and_false, false_or]
    omega
  · cases hyes : r.errno.again with
    | true =>
        simp only [Bool.true_eq_false, and_false, false_or]
        omega
    | false =>
        simp only [and_true]
        omega

end Full

/-! ## Runs -/

/-- A TCP io that streams, and no `io_write` has closed it early. -/
structure Founded (s : WriteHistory) : Prop where
  streaming : Streaming s.sys
  reset : s.sys.conn.io.closed = false → s.sys.conn.io.write_buf.Reset
  founded : NotEarly s

variable {s t : WriteHistory} {call : IoCall}

theorem stepAlive_some (h : s.stepAlive call = some t) :
    call.fatal = false ∧ s.step call = some t := by
  simpa [WriteHistory.stepAlive] using h

theorem closesEarly_write_iff {payload : Payload} {r : WriteResult} {now : ℕ} {told : List Effect}
    {full : Prop} {new : Buffer} (hopen : s.sys.conn.io.closed = false)
    (hwrote : Wrote s.sys.conn told full new (s.sys.conn.call (.write payload r now))) :
    s.closesEarly (.write payload r now) = false ↔
      (full → s.sys.conn.io.write_buf.maxSize <
        s.sys.conn.io.write_buf.tail - s.sys.conn.io.write_buf.head +
          (payload.bytes.length - (told.flatMap (Effect.accepted r.ret)).length)) := by
  obtain ⟨closing, hclosing, heffects⟩ := hwrote.effects
  have haccepted : (s.sys.conn.call (.write payload r now)).effects.flatMap
      (Effect.accepted r.ret) = told.flatMap (Effect.accepted r.ret) := by
    rw [heffects, flatMap_append_close rfl hclosing]
  rw [← hwrote.closed, WriteHistory.closesEarly, WriteHistory.waiting, IoCall.ret, IoCall.payload,
    haccepted, hopen]
  cases (s.sys.conn.call (.write payload r now)).conn.io.closed with
  | false => simp
  | true => simp [IoCall.isWrite]

/-- What an `io_write` that waits behind other bytes needs so as not to close early. -/
theorem Founded.busy_iff (h : Founded s) {payload : Payload} {r : WriteResult} {now : ℕ}
    (hopen : s.sys.conn.io.closed = false) (hfree : s.sys.conn.io.write_mutex = false)
    (hbusy : bufferIsEmpty s.sys.conn.io.write_buf = false) :
    s.closesEarly (.write payload r now) = false ↔ FitsBehind s (.write payload r now) := by
  have hwrote := (ioWrite_wrote_busy payload.bytes r now hfree hopen hbusy).unit
  rw [closesEarly_write_iff hopen hwrote,
    busy_full_iff (h.streaming.fits hopen) payload.size_lt, FitsBehind]
  simp only [hopen, hbusy, forall_const, Bool.false_eq_true, if_false, List.flatMap_nil,
    List.length_nil]
  omega

theorem Founded.direct_iff (h : Founded s) {payload : Payload} {r : WriteResult} {now : ℕ}
    (hopen : s.sys.conn.io.closed = false) (hfree : s.sys.conn.io.write_mutex = false)
    (hempty : bufferIsEmpty s.sys.conn.io.write_buf = true)
    (hlegal : ∀ effect ∈ (s.sys.conn.call (.write payload r now)).effects, effect.Legal r.ret)
    (hagain : r.ret = -1 → r.errno.again = true) :
    s.closesEarly (.write payload r now) = false ↔ FitsBehind s (.write payload r now) := by
  have hwrote := (ioWrite_wrote_direct payload.bytes r now hfree hopen
    (h.streaming.tcp hopen) (h.streaming.fd hopen) hempty).unit
  obtain ⟨closing, -, heffects⟩ := hwrote.effects
  have hret : r.ret = -1 ∨ (0 ≤ r.ret ∧ r.ret ≤ payload.bytes.length) :=
    hlegal (.write payload.bytes) (by rw [Conn.call, heffects]; simp)
  have hzero := h.reset hopen hempty
  have hsame : s.sys.conn.io.write_buf.head = s.sys.conn.io.write_buf.tail :=
    of_decide_eq_true hempty
  have htold : (toldDirect s.sys.conn payload.bytes.length (int32 r.ret)).flatMap
      (Effect.accepted r.ret) = [] := by
    rw [toldDirect]
    split_ifs
    · rfl
    · exact accepted_writeCb _ _
    · exact accepted_writeCb _ _
  rw [closesEarly_write_iff hopen hwrote,
    direct_full_iff (h.streaming.fits hopen) hzero payload.size_lt hret hagain, FitsBehind]
  simp only [hopen, hempty, forall_const, if_true, List.flatMap_cons, htold, List.append_nil,
    accepted_write, List.length_take]
  omega

theorem Founded.early_iff (h : Founded s) (hstep : s.stepAlive call = some t) :
    s.closesEarly call = false ↔ FitsBehind s call := by
  obtain ⟨halive, hstep⟩ := stepAlive_some hstep
  obtain ⟨hblocked, -, hlegal, -, -⟩ := WriteHistory.step_some hstep
  have hfree := h.streaming.free hblocked
  cases call with
  | write payload r now =>
      cases hopen : s.sys.conn.io.closed with
      | true => simp [WriteHistory.closesEarly, FitsBehind, hopen]
      | false =>
          cases hempty : bufferIsEmpty s.sys.conn.io.write_buf with
          | true =>
              refine h.direct_iff hopen hfree hempty hlegal fun hfail => ?_
              simpa [IoCall.fatal, hfail] using halive
          | false => exact h.busy_iff hopen hfree hempty
  | writeCb r now => exact iff_of_true rfl trivial
  | close => exact iff_of_true rfl trivial

theorem Founded.notEarly_iff (h : Founded s) (hstep : s.stepAlive call = some t) :
    NotEarly t ↔ FitsBehind s call := by
  rw [← h.early_iff hstep]
  obtain ⟨-, hstep⟩ := stepAlive_some hstep
  obtain ⟨sys, -, rfl⟩ := Option.map_eq_some_iff.mp hstep
  have hfounded : s.unfounded = false := h.founded
  simp [NotEarly, hfounded]

theorem Founded.call_reset (h : Founded s) (hopen : s.sys.conn.io.closed = false)
    (hfree : s.sys.conn.io.write_mutex = false)
    (hstill : (s.sys.conn.call call).conn.io.closed = false) :
    (s.sys.conn.call call).conn.io.write_buf.Reset := by
  have hreset := h.reset hopen
  have hfits := h.streaming.fits hopen
  have hnew : ∀ {told full new}, Wrote s.sys.conn told full new (s.sys.conn.call call) →
      new.Reset → (s.sys.conn.call call).conn.io.write_buf.Reset := by
    intro told full new hwrote hnew
    rw [hwrote.write_buf fun hfull => by simp [hwrote.closed.mpr hfull] at hstill]
    exact hnew
  cases call with
  | write payload r now =>
      cases hempty : bufferIsEmpty s.sys.conn.io.write_buf with
      | true =>
          exact hnew (ioWrite_wrote_direct payload.bytes r now hfree hopen
            (h.streaming.tcp hopen) (h.streaming.fd hopen) hempty).unit
            (hreset.directRest hfits payload.size_lt r)
      | false =>
          exact hnew (ioWrite_wrote_busy payload.bytes r now hfree hopen hempty).unit
            (hreset.appended hfits payload.size_lt)
  | writeCb r now =>
      cases hempty : bufferIsEmpty s.sys.conn.io.write_buf with
      | true => exact hnew (ioWriteCb_wrote_empty r now hfree hopen hempty) hreset
      | false => exact hnew (ioWriteCb_wrote_busy r now hfree hopen hempty) (hreset.flushRest _)
  | close =>
      rw [Conn.call, (ioClose_closes hfree).closed] at hstill
      cases hstill

theorem Founded.step (h : Founded s) (hg : FitsBehind s call) (hstep : s.stepAlive call = some t) :
    Founded t := by
  have hearly := (h.notEarly_iff hstep).mpr hg
  obtain ⟨-, hstep⟩ := stepAlive_some hstep
  obtain ⟨hblocked, hsys, -, hconn, -⟩ := WriteHistory.step_some hstep
  refine ⟨h.streaming.step hsys, fun hopen => ?_, hearly⟩
  rw [hconn] at hopen ⊢
  exact h.call_reset (call_open hopen) (h.streaming.free hblocked) hopen

theorem founded_start (c : Conn) (fd : ℕ) (malloced : ℕ → UInt8) :
    Founded (.start (c.tcp fd malloced)) :=
  ⟨streaming_start c fd malloced, fun _ _ => rfl, rfl⟩

/-- As long as no write fails for good, an `io_write` closes the io for backlog only, exactly
when every payload is queued as `FitsBehind` says. -/
theorem notEarly_iff_fitsBehind (c : Conn) (fd : ℕ) (malloced : ℕ → UInt8) (run : List IoCall) :
    Along WriteHistory.stepAlive NotEarly (.start (c.tcp fd malloced)) run ↔
      Meets WriteHistory.stepAlive FitsBehind (.start (c.tcp fd malloced)) run :=
  along_iff_meets (fun _ h => h.founded) (fun _ _ _ h hg hstep => h.step hg hstep)
    (fun _ _ _ h hstep ht => (h.notEarly_iff hstep).mp ht) run (founded_start c fd malloced)

/-! ## A connection that drains all but a few bytes -/

theorem stepAlive_of (s : WriteHistory) (call : IoCall) (hblocked : s.sys.blocked = false)
    (halive : call.fatal = false)
    (hlegal : ∀ effect ∈ (s.sys.conn.call call).effects, effect.Legal call.ret) :
    ∃ t, s.stepAlive call = some t ∧ t.sys.conn = (s.sys.conn.call call).conn ∧
      t.sys.blocked = (s.sys.conn.call call).value.isNone := by
  simp only [WriteHistory.stepAlive, halive, Bool.false_eq_true, if_false, WriteHistory.step,
    IoSystem.legalStep, if_pos hlegal, IoSystem.step, hblocked]
  exact ⟨_, rfl, rfl, rfl⟩

theorem legal_fail (effect : Effect) : effect.Legal (-1) := by
  cases effect <;> simp [Effect.Legal]

theorem legal_zero (effect : Effect) : effect.Legal 0 := by
  cases effect <;> simp [Effect.Legal]

theorem legal_flush {c : Conn} {r : WriteResult} {now : ℕ} (hfree : c.io.write_mutex = false)
    (hopen : c.io.closed = false) (hbusy : bufferIsEmpty c.io.write_buf = false)
    (h₀ : 0 ≤ r.ret) (h₁ : r.ret ≤ c.io.write_buf.unsent.length) :
    ∀ effect ∈ (ioWriteCb c r now).effects, effect.Legal r.ret := by
  obtain ⟨closing, hclosing, heffects⟩ := (ioWriteCb_wrote_busy r now hfree hopen hbusy).effects
  rw [heffects]
  rintro (bytes | _ | _) hmem
  · rcases List.mem_append.mp hmem with hmem | hmem
    · rcases List.mem_cons.mp hmem with heq | hmem
      · obtain rfl := Effect.write.inj heq
        exact .inr ⟨h₀, h₁⟩
      · rw [toldFlush] at hmem
        split_ifs at hmem <;> simp at hmem
    · cases hclosing _ hmem
  · trivial
  · trivial

/-- The io is open, and its buffer is filled from `head` to the end. -/
structure FilledFrom (head : ℕ) (s : WriteHistory) : Prop extends Founded s where
  opened : s.sys.conn.io.closed = false
  returned : s.sys.blocked = false
  head_eq : s.sys.conn.io.write_buf.head = head
  tail_eq : s.sys.conn.io.write_buf.tail = maxIoBufSize

theorem FilledFrom.busy {head : ℕ} (h : FilledFrom head s) (hless : head < maxIoBufSize) :
    bufferIsEmpty s.sys.conn.io.write_buf = false := by
  rw [bufferIsEmpty, h.head_eq, h.tail_eq]
  exact decide_eq_false (Nat.ne_of_lt hless)

theorem filledFrom_write (c : Conn) {big : Payload} (hbig : big.bytes.length = maxIoBufSize) :
    ∃ t, WriteHistory.stepAlive (.start (c.tcp 5 fun _ => 0))
      (.write big ⟨-1, .eagain, .other⟩ 0) = some t ∧ FilledFrom 0 t := by
  obtain ⟨t, ht, hconn, hblocked⟩ := stepAlive_of (.start (c.tcp 5 fun _ => 0))
    (.write big ⟨-1, .eagain, .other⟩ 0) rfl rfl fun effect _ => legal_fail effect
  obtain ⟨hopen, hreturned, hhead, htail⟩ : t.sys.conn.io.closed = false ∧
      t.sys.blocked = false ∧ t.sys.conn.io.write_buf.head = 0 ∧
      t.sys.conn.io.write_buf.tail = maxIoBufSize := by
    have hmax : maxIoBufSize = 2097152 := rfl
    have hsum : u64 2097152 = 2097152 := by decide
    have hfail : int32 (-1) = -1 := by decide
    rw [hconn, hblocked]
    simp [WriteHistory.start, IoSystem.start, Conn.call, ioWrite, Conn.lock, Conn.tcp, getIo,
      bufferIsEmpty, ioWriteTcp, bufferAppendData, hbig, hmax, hfail, hsum, Errno.again,
      Ran.andThen, Ran.after, Conn.setWriteBuf, Conn.unlock]
  refine ⟨t, ht, ⟨(founded_start c 5 _).step ?_ ht, hopen, hreturned, hhead, htail⟩⟩
  intro _
  rw [if_pos (show bufferIsEmpty _ = true from rfl)]
  exact fun hcount => absurd hcount (by decide)

/-- Its first byte is sent. -/
theorem FilledFrom.flush (h : FilledFrom 0 s) :
    ∃ t, s.stepAlive (.writeCb ⟨1, .other, .other⟩ 0) = some t ∧ FilledFrom 1 t := by
  have hfree := h.streaming.free h.returned
  have hbusy := h.busy (by decide)
  have hlength : (1 : ℤ) ≤ s.sys.conn.io.write_buf.unsent.length := by
    rw [Buffer.unsent_length, h.head_eq, h.tail_eq]
    decide
  obtain ⟨t, ht, hconn, hblocked⟩ := stepAlive_of s
    (.writeCb ⟨1, .other, .other⟩ 0) h.returned rfl
    (legal_flush hfree h.opened hbusy (by decide) hlength)
  have hwrote := ioWriteCb_wrote_busy ⟨1, .other, .other⟩ 0 hfree h.opened hbusy
  have hreleased := @ioWriteCb_released_iff s.sys.conn ⟨1, .other, .other⟩ 0 hfree
    |>.mpr fun _ _ hneg => absurd hneg (by decide)
  have hcount : (int32 1).toNat = 1 := by decide
  refine ⟨t, ht, ⟨h.step (show FitsBehind s (.writeCb ⟨1, .other, .other⟩ 0) from trivial) ht,
    ?_, ?_, ?_, ?_⟩⟩
  · rw [hconn]
    simpa [Conn.call] using hwrote.closed.not.mpr not_false
  · rw [hblocked]
    simpa [Conn.call] using hreleased.1
  all_goals
    rw [hconn, Conn.call, hwrote.write_buf not_false, flushRest, if_neg (by decide),
      if_neg (by rw [h.head_eq, h.tail_eq]; decide)]
  · simp [h.head_eq, hcount]
  · exact h.tail_eq

/-- One byte more has no room, though one has just been sent. -/
theorem not_notEarly_of_size (c : Conn) {big : Payload} (hbig : big.bytes.length = maxIoBufSize) :
    ¬ Along WriteHistory.stepAlive NotEarly (.start (c.tcp 5 fun _ => 0))
      [.write big ⟨-1, .eagain, .other⟩ 0, .writeCb ⟨1, .other, .other⟩ 0,
        .write ⟨[1], by decide⟩ ⟨0, .other, .other⟩ 0] := by
  intro h
  obtain ⟨s, hs, hfilled⟩ := filledFrom_write c hbig
  obtain ⟨t, ht, hsent⟩ := hfilled.flush
  obtain ⟨u, hu, -, -⟩ := stepAlive_of t
    (.write ⟨[1], by decide⟩ ⟨0, .other, .other⟩ 0) hsent.returned rfl
    fun effect _ => legal_zero effect
  have hfits := (hsent.notEarly_iff hu).mp (((h.2 s hs).2 t ht).2 u hu) hsent.opened
  rw [if_neg (by simp [hsent.busy (by decide)]), hsent.head_eq, hsent.tail_eq,
    (hsent.streaming.fits hsent.opened).max_eq] at hfits
  exact absurd hfits (by decide)

/-- The buffer is filled, one byte is sent, and one more closes the io. -/
theorem not_notEarly_drained :
    ¬ Along WriteHistory.stepAlive NotEarly
      (.start (Conn.tcp ⟨getIo 5 fun _ => 0, loopInit 0 0 (fun _ => Timer.zero) fun _ => none⟩ 5
        fun _ => 0))
      [.write ⟨List.replicate maxIoBufSize 0, by rw [List.length_replicate]; decide⟩
          ⟨-1, .eagain, .other⟩ 0,
        .writeCb ⟨1, .other, .other⟩ 0, .write ⟨[1], by decide⟩ ⟨0, .other, .other⟩ 0] :=
  not_notEarly_of_size _ List.length_replicate

end LibConn
