import LibConn.Model.ReadyEvents
import LibConn.Verification.Io.Interest
import LibConn.Verification.Io.Stream

/-! # Who is woken for what

`io_write` turns `EVENT_WRITE` on where it queues bytes, and on the way replaces the callback
of the io. Nothing turns it off, and nothing puts `handle_event` back. -/

namespace LibConn

open LibConn.Run

/-! ## Established ios -/

/-- A TCP io that is connected and open. -/
structure Established (c : Conn) : Prop where
  opened : c.io.closed = false
  tcp : c.io.type = .tcp
  fd : c.io.fd ≠ -1
  free : c.io.write_mutex = false
  fits : c.io.write_buf.Fits
  narrow : Narrow c.io.events
  cb : c.io.cb = some .handleEvent ∨ c.io.cb = some .ioWriteCb

/-- The io is closed and wants nothing. -/
structure Gone (c : Conn) : Prop where
  closed : c.io.closed = true
  quiet : c.io.events = 0

/-- The bytes that `io_write` is left with, if it is to queue any. -/
def WriteResult.leftover (r : WriteResult) (buf : List UInt8) : Option (List UInt8) :=
  if int32 r.ret < 0 then (if r.errno.again then some buf else none)
  else if int32 r.ret < buf.length then some (buf.drop (int32 r.ret).toNat)
  else none

/-- `io_write` finds an empty buffer, and room there for the `rest` that it is left with. -/
structure Queues (c : Conn) (buf : List UInt8) (r : WriteResult) (rest : List UInt8) : Prop where
  empty : bufferIsEmpty c.io.write_buf = true
  leftover : r.leftover buf = some rest
  room : bufferAppendData c.io.write_buf rest ≠ none

/-- The io after a call that queues nothing behind an empty buffer. -/
structure Unstirred (c c' : Conn) : Prop where
  opened : c'.io.closed = false
  cb : c'.io.cb = c.io.cb
  events : c'.io.events = c.io.events
  waiting : bufferIsEmpty c'.io.write_buf = bufferIsEmpty c.io.write_buf

/-- The io after `io_write` has queued `rest`. -/
structure Queued (c : Conn) (rest : List UInt8) (c' : Conn) : Prop where
  opened : c'.io.closed = false
  cb : c'.io.cb = some .ioWriteCb
  events : c'.io.events = c.io.events ||| eventWrite
  waiting : c'.io.write_buf.unsent = rest

/-- What `io_write` can do to an open io. -/
inductive Stirs (c : Conn) (buf : List UInt8) (r : WriteResult) (c' : Conn) : Prop where
  | queues (rest : List UInt8) (hqueues : Queues c buf r rest) (h : Queued c rest c')
  | leaves (hqueues : ∀ rest, ¬ Queues c buf r rest) (h : Unstirred c c')
  | closes (hqueues : ∀ rest, ¬ Queues c buf r rest) (h : Gone c')

/-! ## `io_write` -/

section Write

variable {c c' : Conn} {buf : List UInt8} {r : WriteResult} {now : ℕ}

theorem bufferIsEmpty_iff {buf : Buffer} (hfits : buf.Fits) :
    bufferIsEmpty buf = true ↔ buf.unsent = [] := by
  have hle := hfits.head_le
  rw [← List.length_eq_zero_iff, Buffer.unsent_length, bufferIsEmpty, decide_eq_true_eq]
  omega

theorem closeAndReturn_gone (hopen : c.io.closed = false) (hfree : c.io.write_mutex = false)
    (hnarrow : Narrow c.io.events) (value : ℤ) : Gone (closeAndReturn c value).conn := by
  refine ⟨(closeAndReturn_closes hfree value).closed, ?_⟩
  have hclose := ioClose_open hfree hopen
  rw [closeAndReturn, Ran.andThen_some (ioClose_closes hfree).value_eq, Ran.after_conn, hclose]
  have hquiet : c.disarmed.io.events = 0 := by
    rw [disarmed_events]
    rcases hnarrow with h | h | h | h <;> rw [h] <;> decide
  dsimp only
  split_ifs <;> exact hquiet

theorem ioAdd_eventWrite (hnarrow : Narrow c.io.events) (cb : EventCb) :
    (ioAdd c cb eventWrite).io.events = c.io.events ||| eventWrite := by
  rw [ioAdd]
  split_ifs with hnew
  · rfl
  · revert hnew
    rcases hnarrow with h | h | h | h <;> rw [h] <;> decide

@[simp] theorem ioAdd_cb (cb : EventCb) (event : Mask) : (ioAdd c cb event).io.cb = some cb := by
  rw [ioAdd]
  split_ifs <;> rfl

theorem queued_ioAdd {write_buf : Buffer} {rest : List UInt8} (hopen : c.io.closed = false)
    (hnarrow : Narrow c.io.events) (hfits : c.io.write_buf.Fits) (hsize : rest.length < 2 ^ 63)
    (hempty : bufferIsEmpty c.io.write_buf = true)
    (happend : bufferAppendData c.io.write_buf rest = some write_buf) :
    Queued c rest (ioAdd (c.setWriteBuf write_buf) .ioWriteCb eventWrite) := by
  refine ⟨?_, ioAdd_cb _ _, ?_, ?_⟩
  · rw [ioAdd_closed]
    exact hopen
  · exact ioAdd_eventWrite (c := c.setWriteBuf write_buf) hnarrow _
  · have hnew := (bufferAppendData_some hfits hsize happend).1
    rw [(bufferIsEmpty_iff hfits).mp hempty, List.nil_append] at hnew
    rw [ioAdd_write_buf]
    exact hnew

theorem Queued.done {rest : List UInt8} (h : Queued c rest c') (nwrite : ℤ) (now : ℕ) :
    Queued c rest (ioWriteDone c' nwrite now).conn := by
  rw [ioWriteDone]
  dsimp only
  split_ifs <;> exact { h with }

theorem ioWriteTcp_stirs (hopen : c.io.closed = false) (hnarrow : Narrow c.io.events)
    (hfits : c.io.write_buf.Fits) (hempty : bufferIsEmpty c.io.write_buf = true)
    (hfd : c.io.fd ≠ -1) (hsize : buf.length < 2 ^ 63) :
    Stirs c buf r (ioWriteTcp c buf r now).conn := by
  have hclose : ∀ value, Gone (closeAndReturn c.unlock value).conn :=
    fun value => closeAndReturn_gone (c := c.unlock) hopen rfl hnarrow value
  rw [ioWriteTcp, if_neg hfd]
  dsimp only
  by_cases hneg : int32 r.ret < 0
  · rw [if_pos hneg]
    by_cases hagain : r.errno.again = true
    · have hleft : r.leftover buf = some buf := by
        rw [WriteResult.leftover, if_pos hneg, if_pos hagain]
      rw [if_pos hagain]
      cases happend : bufferAppendData c.io.write_buf buf with
      | none =>
          refine .closes (fun rest h => h.room ?_) (hclose 0)
          rw [← Option.some.inj (hleft.symm.trans h.leftover), happend]
      | some write_buf =>
          have hroom : bufferAppendData c.io.write_buf buf ≠ none := by simp [happend]
          have h := queued_ioAdd hopen hnarrow hfits hsize hempty happend
          exact .queues buf ⟨hempty, hleft, hroom⟩ { h with }
    · have hleft : r.leftover buf = none := by
        rw [WriteResult.leftover, if_pos hneg, if_neg hagain]
      rw [if_neg hagain]
      refine .closes (fun rest h => ?_) (hclose (-1))
      exact absurd (hleft.symm.trans h.leftover) (Option.some_ne_none rest).symm
  · rw [if_neg hneg]
    by_cases hpart : int32 r.ret < buf.length
    · have hleft : r.leftover buf = some (buf.drop (int32 r.ret).toNat) := by
        rw [WriteResult.leftover, if_neg hneg, if_pos hpart]
      rw [if_pos hpart]
      cases happend : bufferAppendData c.io.write_buf (buf.drop (int32 r.ret).toNat) with
      | none =>
          refine .closes (fun rest h => h.room ?_) (hclose _)
          rw [← Option.some.inj (hleft.symm.trans h.leftover), happend]
      | some write_buf =>
          have hroom : bufferAppendData c.io.write_buf (buf.drop (int32 r.ret).toNat) ≠ none := by
            simp [happend]
          have hrest : (buf.drop (int32 r.ret).toNat).length < 2 ^ 63 := by
            rw [List.length_drop]
            omega
          have h := queued_ioAdd hopen hnarrow hfits hrest hempty happend
          exact .queues _ ⟨hempty, hleft, hroom⟩ (h.done _ now)
    · have hleft : r.leftover buf = none := by
        rw [WriteResult.leftover, if_neg hneg, if_neg hpart]
      rw [if_neg hpart]
      refine .leaves (fun rest h => ?_) ?_
      · exact absurd (hleft.symm.trans h.leftover) (Option.some_ne_none rest).symm
      · simp only [Ran.after_conn, ioWriteDone]
        split_ifs <;> exact ⟨hopen, rfl, rfl, rfl⟩

theorem ioWrite_stirs (h : Established c) (hsize : buf.length < 2 ^ 63) :
    Stirs c buf r (ioWrite c buf r now).conn := by
  have hopen : c.lock.io.closed = false := h.opened
  have hssl : c.lock.io.type ≠ .ssl := by simp [Conn.lock, h.tcp]
  rw [ioWrite, if_neg (by simp [h.free])]
  dsimp only
  rw [if_neg (by simp [hopen])]
  cases hempty : bufferIsEmpty c.io.write_buf with
  | false =>
      have hbusy : ∀ rest, ¬ Queues c buf r rest := fun rest hq => by
        rw [hq.empty] at hempty
        cases hempty
      have hbusy' : bufferIsEmpty c.lock.io.write_buf = false := hempty
      rw [if_pos hbusy']
      cases happend : bufferAppendData c.lock.io.write_buf buf with
      | none =>
          exact .closes hbusy (closeAndReturn_gone (c := c.lock.unlock) h.opened rfl h.narrow _)
      | some write_buf =>
          refine .leaves hbusy ⟨h.opened, rfl, rfl, ?_⟩
          obtain ⟨hnew, hfits, -⟩ := bufferAppendData_some h.fits hsize happend
          have hold : c.io.write_buf.unsent ≠ [] := fun hnil => by
            rw [(bufferIsEmpty_iff h.fits).mpr hnil] at hempty
            cases hempty
          have hnew' : write_buf.unsent ≠ [] := by
            rw [hnew]
            exact List.append_ne_nil_of_left_ne_nil hold buf
          rw [hempty, Bool.eq_false_iff]
          exact fun hnil => hnew' ((bufferIsEmpty_iff hfits).mp hnil)
  | true =>
      have hnot : ¬ bufferIsEmpty c.lock.io.write_buf = false := by
        simp [Conn.lock, hempty]
      rw [if_neg hnot, if_neg hssl]
      have hstirs : Stirs c.lock buf r (ioWriteTcp c.lock buf r now).conn :=
        ioWriteTcp_stirs hopen h.narrow h.fits hempty h.fd hsize
      cases hstirs with
      | queues rest hq hqueued =>
          exact .queues rest { hq with }
            { hqueued with }
      | leaves hq hleaves =>
          exact .leaves (fun rest hq' => hq rest { hq' with })
            { hleaves with }
      | closes hq hgone =>
          exact .closes (fun rest hq' => hq rest { hq' with }) hgone

end Write

/-! ## `io_write_cb` -/

section WriteCb

variable {c c' : Conn} {r : WriteResult} {now : ℕ}

/-- What `io_write_cb` does to an open io: it may drain the buffer, and that is all. -/
structure Flushes (c : Conn) (r : WriteResult) (c' : Conn) : Prop where
  opened : c'.io.closed = false
  cb : c'.io.cb = c.io.cb
  events : c'.io.events = c.io.events
  empty : bufferIsEmpty c'.io.write_buf = true ↔
    bufferIsEmpty c.io.write_buf = true ∨ r.ret = c.io.write_buf.unsent.length

theorem ioFlushed_flushes (hopen : c.io.closed = false) (hfits : c.io.write_buf.Fits)
    (h₀ : 0 ≤ r.ret) (h₁ : r.ret ≤ c.io.write_buf.unsent.length)
    (hbusy : bufferIsEmpty c.io.write_buf = false) :
    Flushes c r (ioFlushed c r.ret).conn := by
  have hle := hfits.head_le
  have hne : c.io.write_buf.head ≠ c.io.write_buf.tail := by simpa [bufferIsEmpty] using hbusy
  rw [Buffer.unsent_length] at h₁
  rw [ioFlushed]
  by_cases hall : r.ret.toNat = c.io.write_buf.tail - c.io.write_buf.head
  · refine ⟨hopen, rfl, rfl, iff_of_true ?_ (Or.inr ?_)⟩
    · simp [Conn.unlock, Conn.setWriteBuf, hall, bufferIsEmpty]
    · rw [Buffer.unsent_length]
      omega
  · refine ⟨hopen, rfl, rfl, iff_of_false ?_ ?_⟩
    · simp only [Conn.unlock, Conn.setWriteBuf, if_neg hall, bufferIsEmpty, decide_eq_true_eq]
      omega
    · rintro (hnil | hret)
      · exact absurd (hbusy.symm.trans hnil) (by decide)
      · rw [Buffer.unsent_length] at hret
        omega

theorem ioWriteCb_ret (h : Established c) (hbusy : bufferIsEmpty c.io.write_buf = false)
    (hlegal : ∀ effect ∈ (ioWriteCb c r now).effects, effect.Legal r.ret) :
    (r.ret = -1 ∨ (0 ≤ r.ret ∧ r.ret ≤ c.io.write_buf.unsent.length)) ∧ int32 r.ret = r.ret := by
  have hret : r.ret = -1 ∨ (0 ≤ r.ret ∧ r.ret ≤ c.io.write_buf.unsent.length) := by
    apply hlegal (.write c.io.write_buf.unsent)
    have hbusy' : ¬ bufferIsEmpty c.lock.io.write_buf = true := by simp [Conn.lock, hbusy]
    rw [ioWriteCb, if_neg (by simp [h.opened]), if_neg (by simp [h.free])]
    dsimp only
    rw [if_neg hbusy']
    simp [Conn.lock]
  refine ⟨hret, ?_⟩
  have hmax := h.fits.max_eq
  have htail := h.fits.tail_le
  have hmax' : maxIoBufSize = 2097152 := rfl
  rw [Buffer.unsent_length] at hret
  exact int32_of_lt (by omega) (by omega)

theorem ioWriteCb_flushes (h : Established c)
    (hlegal : ∀ effect ∈ (ioWriteCb c r now).effects, effect.Legal r.ret)
    (hvalue : (ioWriteCb c r now).value.isSome = true) :
    Flushes c r (ioWriteCb c r now).conn := by
  have hret := fun hbusy => ioWriteCb_ret h hbusy hlegal
  rw [ioWriteCb, if_neg (by simp [h.opened]), if_neg (by simp [h.free])] at hvalue ⊢
  dsimp only at hvalue ⊢
  cases hempty : bufferIsEmpty c.io.write_buf with
  | true =>
      rw [if_pos (show bufferIsEmpty c.lock.io.write_buf = true from hempty)]
      exact ⟨h.opened, rfl, rfl, by simp [Conn.unlock, Conn.lock, hempty]⟩
  | false =>
      have hbusy : ¬ bufferIsEmpty c.lock.io.write_buf = true := by simp [Conn.lock, hempty]
      obtain ⟨hfail | ⟨h₀, h₁⟩, hsmall⟩ := hret hempty
      · rw [if_neg hbusy, if_pos (by rw [hsmall]; omega)] at hvalue ⊢
        split_ifs at hvalue ⊢
        · refine ⟨h.opened, rfl, rfl, ?_⟩
          simp only [Ran.after_conn, Conn.unlock, Conn.lock, hempty, Bool.false_eq_true, false_or,
            false_iff, hfail]
          omega
        · -- `io_close` waits for the mutex that is held here
          rw [ioClose_held rfl, Ran.andThen_none rfl] at hvalue
          cases hvalue
      · rw [if_neg hbusy, hsmall, if_neg (Int.not_lt.mpr h₀)]
        have hflushes := ioFlushed_flushes (r := r)
          (c := { c.lock with io := { c.lock.io with last_write_time := now } }) h.opened h.fits
          h₀ h₁ hempty
        exact { hflushes with }

end WriteCb

/-! ## Steps -/

section Steps

variable {c c' : Conn} {a : WriteAction}

/-- What an action that returns does to an established io. -/
inductive Acted (c : Conn) : WriteAction → Conn → Prop where
  | write {payload : Payload} {r : WriteResult} {now : ℕ} {c' : Conn}
      (h : Stirs c payload.bytes r c') : Acted c (.write payload r now) c'
  | ready {r : WriteResult} {now : ℕ} {c' : Conn} (h : Flushes c r c') :
      Acted c (.ready r now) c'
  | unheard {r : WriteResult} {now : ℕ} (hquiet : c.io.events &&& eventWrite = 0) :
      Acted c (.ready r now) c

theorem Stirs.established {buf : List UInt8} {r : WriteResult} (h : Established c)
    (hstirs : Stirs c buf r c') (hopen : c'.io.closed = false) :
    Narrow c'.io.events ∧ (c'.io.cb = some .handleEvent ∨ c'.io.cb = some .ioWriteCb) := by
  cases hstirs with
  | queues rest _ hqueued =>
      rw [hqueued.events, hqueued.cb]
      exact ⟨h.narrow.or .write, .inr rfl⟩
  | leaves _ hleaves =>
      rw [hleaves.events, hleaves.cb]
      exact ⟨h.narrow, h.cb⟩
  | closes _ hgone => exact absurd (hopen.symm.trans hgone.closed) (by decide)

/-- An action that returns does one of these things, and leaves an established io if it
leaves an open one. -/
theorem writeStep_acted (h : Established c) (hstep : c.writeStep a = some c') :
    Acted c a c' ∧ (c'.io.closed = false → Established c') := by
  rw [Conn.writeStep, Option.bind_eq_some_iff] at hstep
  obtain ⟨ran, hact, hstep⟩ := hstep
  rw [Option.ite_none_right_eq_some] at hstep
  obtain ⟨⟨hlegal, hvalue⟩, hstep⟩ := hstep
  obtain rfl := Option.some.inj hstep
  cases a with
  | write payload r now =>
      obtain rfl := Option.some.inj hact
      rw [Ran.andThen_unit] at hlegal ⊢
      have hstirs : Stirs c payload.bytes r (ioWrite c payload.bytes r now).conn :=
        ioWrite_stirs h payload.size_lt
      have hconserves := ioWrite_conserves h.fits h.tcp h.fd payload.size_lt hlegal h.free h.opened
      have hreleased : (ioWrite c payload.bytes r now).Released :=
        (ioWrite_released_iff h.free).mpr fun _ _ hssl =>
          absurd (h.tcp.symm.trans hssl) (by decide)
      refine ⟨.write hstirs, fun hopen => ?_⟩
      obtain ⟨hnarrow, hcb⟩ := hstirs.established h hopen
      exact ⟨hopen, (hconserves.type_eq hopen).trans h.tcp, hconserves.fd_eq hopen ▸ h.fd,
        hreleased.2, hconserves.fits hopen, hnarrow, hcb⟩
  | ready r now =>
      obtain ⟨d, hdispatch, rfl⟩ := Option.map_eq_some_iff.mp hact
      have hran : d.ran = ⟨c, some (), []⟩ ∧ c.io.events &&& eventWrite = 0 ∨
          d.ran = ioWriteCb c r now := by
        rw [dispatchEvent] at hdispatch
        rcases h.cb with hcb | hcb
        · rw [hcb] at hdispatch
          obtain rfl := Option.some.inj hdispatch
          rw [handleEventWrite]
          split_ifs with hwanted
          · exact .inr rfl
          · refine .inl ⟨rfl, ?_⟩
            by_contra hne
            exact hwanted ⟨hne, by decide⟩
        · rw [hcb] at hdispatch
          obtain rfl := Option.some.inj hdispatch
          exact .inr rfl
      rcases hran with ⟨hran, hquiet⟩ | hran
      · rw [hran]
        exact ⟨.unheard hquiet, fun _ => h⟩
      · rw [hran] at hlegal hvalue ⊢
        have hflushes := ioWriteCb_flushes h hlegal hvalue
        have hconserves := ioWriteCb_conserves h.fits hlegal h.opened
        refine ⟨.ready hflushes, fun hopen => ?_⟩
        exact ⟨hopen, (hconserves.type_eq hopen).trans h.tcp, hconserves.fd_eq hopen ▸ h.fd,
          ioWriteCb_free h.free hvalue, hconserves.fits hopen, hflushes.events ▸ h.narrow,
          hflushes.cb ▸ h.cb⟩

theorem Acted.gone (h : Acted c a c') (hopen : c.io.closed = false)
    (hclosed : c'.io.closed = true) : Gone c' := by
  cases h with
  | write hstirs =>
      cases hstirs with
      | queues _ _ hqueued => exact absurd (hclosed.symm.trans hqueued.opened) (by decide)
      | leaves _ hleaves => exact absurd (hclosed.symm.trans hleaves.opened) (by decide)
      | closes _ hgone => exact hgone
  | ready hflushes => exact absurd (hclosed.symm.trans hflushes.opened) (by decide)
  | unheard hquiet => exact absurd (hclosed.symm.trans hopen) (by decide)

theorem writeStep_gone (h : Gone c) (hstep : c.writeStep a = some c') : Gone c' := by
  rw [Conn.writeStep, Option.bind_eq_some_iff] at hstep
  obtain ⟨ran, hact, hstep⟩ := hstep
  rw [Option.ite_none_right_eq_some] at hstep
  obtain ⟨⟨-, hvalue⟩, hstep⟩ := hstep
  obtain rfl := Option.some.inj hstep
  cases a with
  | write payload r now =>
      obtain rfl := Option.some.inj hact
      rw [Ran.andThen_unit] at hvalue ⊢
      cases hfree : c.io.write_mutex with
      | true => simp [ioWrite, hfree] at hvalue
      | false =>
          rw [ioWrite_closed h.closed hfree]
          exact ⟨h.closed, h.quiet⟩
  | ready r now =>
      obtain ⟨d, hdispatch, rfl⟩ := Option.map_eq_some_iff.mp hact
      have hran : d.ran.conn = c := by
        rw [dispatchEvent] at hdispatch
        cases hcb : c.io.cb with
        | none =>
            rw [hcb] at hdispatch
            obtain rfl := Option.some.inj hdispatch
            rfl
        | some cb =>
            rw [hcb] at hdispatch
            cases cb with
            | handleEvent =>
                obtain rfl := Option.some.inj hdispatch
                rw [handleEventWrite, h.quiet]
                rfl
            | ioWriteCb =>
                obtain rfl := Option.some.inj hdispatch
                rw [ioWriteCb_closed h.closed]
            | sslServerHandshake => cases hdispatch
      rw [hran]
      exact h

end Steps

/-! ## Write interest -/

/-- `EVENT_WRITE` is on exactly while bytes wait in the buffer of the open io. -/
def Follows (c : Conn) : Prop :=
  c.io.closed = false →
    (c.io.events &&& eventWrite ≠ 0 ↔ bufferIsEmpty c.io.write_buf = false)

/-- The action does not flush the whole buffer, and it does not queue zero bytes. -/
def FlushGuard (c : Conn) : WriteAction → Prop
  | .write payload r _ => c.io.closed = false → bufferIsEmpty c.io.write_buf = true →
      r.leftover payload.bytes ≠ some []
  | .ready r _ => c.io.closed = false → bufferIsEmpty c.io.write_buf = false →
      r.ret ≠ c.io.write_buf.unsent.length

section Interest

variable {c c' : Conn} {a : WriteAction}

theorem or_eventWrite (events : Mask) : (events ||| eventWrite) &&& eventWrite ≠ 0 := by
  intro h
  have hbit := congrArg (fun mask : Mask => mask.getLsbD 1) h
  simp [eventWrite] at hbit

/-- There is always room for nothing. -/
theorem queues_nil {buf : List UInt8} {r : WriteResult} (hfits : c.io.write_buf.Fits)
    (hempty : bufferIsEmpty c.io.write_buf = true) (hleft : r.leftover buf = some []) :
    Queues c buf r [] := by
  refine ⟨hempty, hleft, fun hnone => ?_⟩
  have htail := hfits.tail_le
  have hmax := hfits.max_eq
  have hmax' : maxIoBufSize = 2097152 := rfl
  rw [bufferAppendData_eq_none_iff, u64, List.length_nil] at hnone
  omega

/-- A step keeps the equivalence exactly under its guard. -/
theorem follows_step_iff (h : Established c) (hf : Follows c)
    (hstep : c.writeStep a = some c') : Follows c' ↔ FlushGuard c a := by
  obtain ⟨hacted, hnext⟩ := writeStep_acted h hstep
  have hiff := hf h.opened
  cases hacted with
  | write hstirs =>
      cases hstirs with
      | queues rest hqueues hqueued =>
          have hfits := (hnext hqueued.opened).fits
          simp only [Follows, FlushGuard, hqueued.opened, h.opened, forall_const,
            hqueued.events, or_eventWrite, ne_eq, not_false_eq_true, true_iff, hqueues.empty,
            hqueues.leftover, Option.some_inj, Bool.eq_false_iff, bufferIsEmpty_iff hfits,
            hqueued.waiting]
      | leaves hqueues hleaves =>
          refine iff_of_true (fun _ => ?_) fun _ hempty hleft => ?_
          · rw [hleaves.events, hleaves.waiting]
            exact hiff
          · exact hqueues [] (queues_nil h.fits hempty hleft)
      | closes hqueues hgone =>
          refine iff_of_true (fun hopen => ?_) fun _ hempty hleft => ?_
          · exact absurd (hopen.symm.trans hgone.closed) (by decide)
          · exact hqueues [] (queues_nil h.fits hempty hleft)
  | ready hflushes =>
      have hempty := hflushes.empty
      cases hbusy : bufferIsEmpty c.io.write_buf with
      | true =>
          have hempty' := hempty.mpr (.inl hbusy)
          refine iff_of_true (fun _ => ?_) fun _ hbusy' => ?_
          · rw [hflushes.events, hempty', hiff, hbusy]
          · exact absurd (hbusy.symm.trans hbusy') (by decide)
      | false =>
          simp only [hbusy, Bool.false_eq_true, false_or] at hempty
          simp only [Follows, FlushGuard, hflushes.opened, h.opened, forall_const,
            hflushes.events, hiff, hbusy, true_iff, ne_eq, ← hempty, Bool.not_eq_true]
  | unheard hquiet =>
      refine iff_of_true hf fun _ hbusy => ?_
      exact absurd hquiet (hiff.mpr hbusy)

/-- Write interest follows the buffer in every state of a run exactly when no event drains
the buffer and no write queues zero bytes. -/
theorem follows_along_iff (h : Established c) (hf : Follows c) (run : List WriteAction) :
    Along Conn.writeStep Follows c run ↔ Meets Conn.writeStep FlushGuard c run := by
  refine along_iff_meets (I := fun c => (Established c ∧ Follows c) ∨ Gone c) ?_ ?_ ?_ run
    (.inl ⟨h, hf⟩)
  · rintro c (⟨-, hf⟩ | hgone)
    · exact hf
    · exact fun hopen => absurd (hopen.symm.trans hgone.closed) (by decide)
  · rintro c a c' (⟨h, hf⟩ | hgone) hg hstep
    · have hf' := (follows_step_iff h hf hstep).mpr hg
      obtain ⟨hacted, hnext⟩ := writeStep_acted h hstep
      cases hclosed : c'.io.closed with
      | false => exact .inl ⟨hnext hclosed, hf'⟩
      | true => exact .inr (hacted.gone h.opened hclosed)
    · exact .inr (writeStep_gone hgone hstep)
  · rintro c a c' (⟨h, hf⟩ | hgone) hstep hf'
    · exact (follows_step_iff h hf hstep).mp hf'
    · cases a <;> exact fun hopen => absurd (hopen.symm.trans hgone.closed) (by decide)

end Interest

/-! ## Reads -/

/-- A write takes all bytes or some of them, or it would block. -/
def WriteResult.Mild (r : WriteResult) : Prop :=
  r.ret < 0 → r.errno.again = true

/-- A pending event with `EVENT_READ` leads to `io_read_cb`. -/
def ServesRead (c : Conn) : Prop :=
  c.io.events &&& eventRead ≠ 0 →
    ∀ revents r now, revents &&& eventRead ≠ 0 → r.Mild → ∀ d,
      dispatchEvent c revents r now = some d → (∀ effect ∈ d.ran.effects, effect.Legal r.ret) →
        d.io_read_cb = true

/-- The action is no `io_write` that queues bytes behind an empty buffer. -/
def ReadGuard (c : Conn) : WriteAction → Prop
  | .write payload r _ => c.io.closed = false → ∀ rest, ¬ Queues c payload.bytes r rest
  | .ready _ _ => True

section Reads

variable {c c' : Conn} {a : WriteAction}

theorem servesRead_of_handleEvent (h : Established c) (hcb : c.io.cb = some .handleEvent) :
    ServesRead c := by
  intro hread revents r now hrevents hmild d hd hlegal
  rw [dispatchEvent, hcb] at hd
  obtain rfl := Option.some.inj hd
  simp only [handleEventWrite] at hlegal ⊢
  split_ifs at hlegal ⊢ with hwrite
  · have hreleased : (ioWriteCb c r now).Released := by
      refine (ioWriteCb_released_iff h.free).mpr fun _ hbusy hneg => ?_
      have hret : r.ret < 0 := (ioWriteCb_ret h hbusy hlegal).2 ▸ hneg
      simp [WriteResult.again, h.tcp, hmild hret]
    have hflushes := ioWriteCb_flushes h hlegal hreleased.1
    simp only [hreleased.1, handleEventReads, hflushes.events, Bool.true_and, decide_eq_true_eq]
    exact ⟨hread, hrevents⟩
  · simp only [Option.isSome_some, handleEventReads, Bool.true_and, decide_eq_true_eq]
    exact ⟨hread, hrevents⟩

theorem not_servesRead_of_ioWriteCb (hcb : c.io.cb = some .ioWriteCb)
    (hread : c.io.events &&& eventRead ≠ 0) : ¬ ServesRead c := by
  intro h
  have hdispatch : dispatchEvent c eventRead ⟨0, .other, .other⟩ 0 =
      some ⟨ioWriteCb c ⟨0, .other, .other⟩ 0, false⟩ := by
    rw [dispatchEvent, hcb]
  have hlegal : ∀ effect : Effect, effect.Legal 0 := by
    intro effect
    cases effect with
    | write bytes => exact .inr ⟨Int.le_refl 0, Int.natCast_nonneg _⟩
    | writeCb source offset writebytes => exact trivial
    | closeCb => exact trivial
  have hmild : WriteResult.Mild ⟨0, .other, .other⟩ := fun hneg => absurd hneg (by decide)
  exact absurd (h hread eventRead _ 0 (by decide) hmild _ hdispatch fun effect _ => hlegal effect)
    Bool.false_ne_true

/-- An established io that is read. -/
structure Reading (c : Conn) : Prop extends Established c where
  handles : c.io.cb = some .handleEvent
  reads : c.io.events &&& eventRead ≠ 0

theorem Gone.servesRead (h : Gone c) : ServesRead c := by
  intro hread
  rw [h.quiet] at hread
  exact absurd hread (by decide)

theorem Reading.step (h : Reading c) (hstep : c.writeStep a = some c') :
    (ReadGuard c a → Reading c' ∨ Gone c') ∧ (ServesRead c' → ReadGuard c a) := by
  obtain ⟨hacted, hnext⟩ := writeStep_acted h.toEstablished hstep
  cases hacted with
  | write hstirs =>
      cases hstirs with
      | queues rest hqueues hqueued =>
          have hread : c'.io.events &&& eventRead ≠ 0 := by
            rw [hqueued.events]
            have hreads := h.reads
            rcases h.narrow with hn | hn | hn | hn <;> rw [hn] at hreads ⊢ <;>
              first | exact absurd rfl hreads | decide
          exact ⟨fun hg => absurd hqueues (hg h.opened rest),
            fun hserves => absurd hserves (not_servesRead_of_ioWriteCb hqueued.cb hread)⟩
      | leaves hqueues hleaves =>
          refine ⟨fun _ => .inl ⟨hnext hleaves.opened, ?_, ?_⟩, fun _ _ => hqueues⟩
          · exact hleaves.cb.trans h.handles
          · exact hleaves.events ▸ h.reads
      | closes hqueues hgone => exact ⟨fun _ => .inr hgone, fun _ _ => hqueues⟩
  | ready hflushes =>
      refine ⟨fun _ => .inl ⟨hnext hflushes.opened, ?_, ?_⟩, fun _ => trivial⟩
      · exact hflushes.cb.trans h.handles
      · exact hflushes.events ▸ h.reads
  | unheard hquiet => exact ⟨fun _ => .inl h, fun _ => trivial⟩

/-- Reads are served in every state of a run exactly when no write of the run queues bytes
behind an empty buffer. -/
theorem servesRead_along_iff (h : Reading c) (run : List WriteAction) :
    Along Conn.writeStep ServesRead c run ↔ Meets Conn.writeStep ReadGuard c run := by
  refine along_iff_meets (I := fun c => Reading c ∨ Gone c) ?_ ?_ ?_ run (.inl h)
  · rintro c (h | hgone)
    · exact servesRead_of_handleEvent h.toEstablished h.handles
    · exact hgone.servesRead
  · rintro c a c' (h | hgone) hg hstep
    · exact (h.step hstep).1 hg
    · exact .inr (writeStep_gone hgone hstep)
  · rintro c a c' (h | hgone) hstep hserves
    · exact (h.step hstep).2 hserves
    · cases a with
      | write payload r now => exact fun hopen => absurd (hopen.symm.trans hgone.closed) (by decide)
      | ready r now => trivial

end Reads

/-! ## An example -/

/-- A new connection with read interest. -/
def connected : Conn :=
  ⟨{ getIo 5 (fun _ => 0) with events := eventRead, cb := some .handleEvent },
    loopInit 0 0 (fun _ => Timer.zero) fun _ => none⟩

theorem connected_reading : Reading connected :=
  ⟨⟨rfl, rfl, by decide, rfl, ⟨by decide, by decide, rfl⟩, .inr (.inl rfl), .inl rfl⟩, rfl,
    by decide⟩

theorem connected_follows : Follows connected :=
  fun _ => by decide

/-- Two bytes are written. -/
def twoBytes : Payload :=
  ⟨[1, 2], by decide⟩

/-- A write that takes all bytes turns nothing on. -/
theorem follows_along_written :
    Along Conn.writeStep Follows connected [.write twoBytes ⟨2, .other, .other⟩ 0] := by
  refine (follows_along_iff connected_reading.toEstablished connected_follows _).mpr ?_
  exact fun c' _ => ⟨fun _ _ => by decide, trivial⟩

theorem servesRead_along_written :
    Along Conn.writeStep ServesRead connected [.write twoBytes ⟨2, .other, .other⟩ 0] := by
  have hnone : WriteResult.leftover ⟨2, .other, .other⟩ twoBytes.bytes = none := by decide
  refine (servesRead_along_iff connected_reading _).mpr fun c' _ =>
    ⟨fun _ rest hqueues => ?_, trivial⟩
  exact absurd (hnone.symm.trans hqueues.leftover) (Option.some_ne_none rest).symm

/-- A write that would block is flushed later: the io goes on being woken for writing. -/
theorem not_follows_flushed :
    ¬ Along Conn.writeStep Follows connected
      [.write twoBytes ⟨-1, .eagain, .other⟩ 0, .ready ⟨2, .other, .other⟩ 1] := by
  intro h
  have hend := h.exec rfl
  exact absurd (hend rfl).1 (by decide)

/-- After a write that would block, what arrives is not read. -/
theorem not_servesRead_blocked :
    ¬ Along Conn.writeStep ServesRead connected [.write twoBytes ⟨-1, .eagain, .other⟩ 0] := by
  intro h
  have hend := h.exec rfl
  exact not_servesRead_of_ioWriteCb rfl (by decide) hend

end LibConn
