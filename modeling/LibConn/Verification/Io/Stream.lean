import LibConn.Verification.Io.Locks

/-! # The bytes of a TCP connection

Every call conserves bytes: what it finds waiting, followed by its payload, is what the
system takes, followed by what it leaves waiting. -/

namespace LibConn

open LibConn.Memory
open LibConn.Run

/-- `head <= tail <= maxSize`, with the size that `get_io` allocates. -/
structure Buffer.Fits (buf : Buffer) : Prop where
  head_le : buf.head ≤ buf.tail
  tail_le : buf.tail ≤ buf.maxSize
  max_eq : buf.maxSize = maxIoBufSize

@[simp] theorem Buffer.unsent_length (buf : Buffer) : buf.unsent.length = buf.tail - buf.head := by
  simp [Buffer.unsent]

theorem Buffer.unsent_of_empty {buf : Buffer} (h : bufferIsEmpty buf = true) : buf.unsent = [] := by
  have heq : buf.head = buf.tail := by simpa [bufferIsEmpty] using h
  simp [Buffer.unsent, heq]

/-! ## Integers -/

theorem int32_bounds (n : ℤ) :
    -(2 ^ 31) ≤ int32 n ∧ int32 n < 2 ^ 31 ∧ int32 n % 2 ^ 32 = n % 2 ^ 32 := by
  simp only [int32, Int.bmod_def]
  split_ifs <;> omega

theorem int32_of_lt {n : ℤ} (h₀ : -(2 ^ 31) ≤ n) (h₁ : n < 2 ^ 31) : int32 n = n := by
  have h := int32_bounds n
  omega

theorem u64_of_lt {n : ℕ} (h : n < 2 ^ 64) : u64 n = n := by
  rw [u64]
  omega

/-! ## The buffer -/

theorem bufferAppendData_some {write_buf new : Buffer} {buf : List UInt8} (hfits : write_buf.Fits)
    (hsize : buf.length < 2 ^ 63) (h : bufferAppendData write_buf buf = some new) :
    new.unsent = write_buf.unsent ++ buf ∧ new.Fits ∧ buf.length ≤ maxIoBufSize := by
  obtain ⟨hhead, htail, hmax⟩ := hfits
  have hmax' : maxIoBufSize = 2097152 := rfl
  have hsum : u64 (write_buf.tail + buf.length) = write_buf.tail + buf.length := by
    have hlt : write_buf.tail + buf.length < 2 ^ 64 := by omega
    simpa using u64_of_lt hlt
  rw [bufferAppendData, hsum] at h
  split_ifs at h with hfull
  obtain rfl := Option.some.inj h
  refine ⟨slice_copy buf hhead, ⟨Nat.le_add_right_of_le hhead, ?_, hmax⟩, by omega⟩
  exact Nat.not_lt.mp hfull

/-! ## Conservation -/

/-- The bytes that the system takes during a call. -/
def Ran.accepted {α : Type} (ran : Ran α) (ret : ℤ) : List UInt8 :=
  ran.effects.flatMap (Effect.accepted ret)

/-- Unless the call closes the io, it loses nothing and keeps the order. -/
structure Conserves {α : Type} (c : Conn) (payload : List UInt8) (ret : ℤ) (ran : Ran α) :
    Prop where
  bytes : ran.conn.io.closed = false →
    ran.accepted ret ++ ran.conn.io.write_buf.unsent = c.io.write_buf.unsent ++ payload
  fits : ran.conn.io.closed = false → ran.conn.io.write_buf.Fits
  type_eq : ran.conn.io.closed = false → ran.conn.io.type = c.io.type
  fd_eq : ran.conn.io.closed = false → ran.conn.io.fd = c.io.fd

variable {α β : Type} {c : Conn} {payload : List UInt8} {ret : ℤ}

theorem Closes.conserves {c' : Conn} {ran : Ran α} {value : α} (h : Closes c' ran value)
    (effects : List Effect) : Conserves c payload ret (ran.after effects) := by
  constructor <;> intro hopen <;> exact absurd h.closed (by simpa using hopen)

@[simp] theorem accepted_write (buf : List UInt8) :
    (Effect.write buf).accepted ret = buf.take ret.toNat := rfl

@[simp] theorem accepted_writeCb (offset len : ℕ) :
    (writeCb c offset len).flatMap (Effect.accepted ret) = [] := by
  rw [writeCb]
  split_ifs <;> rfl

theorem conserves_of_queued {ran : Ran α} {new : Buffer} (hfits : new.Fits)
    (hrest : ran.conn.io.write_buf = new ∧ ran.conn.io.type = c.io.type ∧
      ran.conn.io.fd = c.io.fd)
    (hbytes : ran.accepted ret ++ new.unsent = c.io.write_buf.unsent ++ payload) :
    Conserves c payload ret ran := by
  obtain ⟨hbuf, htype, hfd⟩ := hrest
  exact ⟨fun _ => by rw [hbuf, hbytes], fun _ => by rw [hbuf]; exact hfits, fun _ => htype,
    fun _ => hfd⟩

section Write

variable {r : WriteResult} {now : ℕ}

theorem ioWriteTcp_conserves (hfits : c.io.write_buf.Fits)
    (hempty : bufferIsEmpty c.io.write_buf = true) (hsize : payload.length < 2 ^ 63)
    (hlegal : r.ret = -1 ∨ (0 ≤ r.ret ∧ r.ret ≤ payload.length)) (hfd : c.io.fd ≠ -1) :
    Conserves c payload r.ret (ioWriteTcp c payload r now) := by
  have hunsent := Buffer.unsent_of_empty hempty
  have hmax : maxIoBufSize = 2097152 := rfl
  obtain ⟨hlow, hhigh, hmod⟩ := int32_bounds r.ret
  rw [ioWriteTcp, if_neg hfd]
  dsimp only
  split_ifs with hneg hagain hpart
  · cases happend : bufferAppendData c.io.write_buf payload with
    | none => exact (closeAndReturn_closes rfl 0).conserves _
    | some new =>
        obtain ⟨hnew, hnewFits, hsmall⟩ := bufferAppendData_some hfits hsize happend
        -- a count beyond an `int` would not have left room for the payload
        have hret : r.ret.toNat = 0 := by omega
        apply conserves_of_queued hnewFits (by simp [Conn.unlock, Conn.setWriteBuf])
        simp [Ran.accepted, hret, hnew]
  · exact (closeAndReturn_closes rfl (-1)).conserves _
  · cases happend : bufferAppendData c.io.write_buf (payload.drop (int32 r.ret).toNat) with
    | none =>
        exact (closeAndReturn_closes rfl _).conserves (Effect.write payload :: writeCb c _ _)
    | some new =>
        obtain ⟨hnew, hnewFits, hsmall⟩ := bufferAppendData_some hfits (by simp; omega) happend
        rw [List.length_drop] at hsmall
        have hret : (int32 r.ret).toNat = r.ret.toNat := by omega
        apply conserves_of_queued hnewFits
        · unfold ioWriteDone
          dsimp only
          split_ifs <;> simp [Conn.unlock, Conn.setWriteBuf]
        · simp [Ran.accepted, ioWriteDone, hnew, hunsent, hret]
  · have hret : payload.length ≤ r.ret.toNat := by omega
    apply conserves_of_queued hfits
    · rw [ioWriteDone]
      dsimp only
      split_ifs <;> simp [Conn.unlock]
    · simp [Ran.accepted, ioWriteDone, hunsent, List.take_of_length_le hret]

theorem ioWrite_conserves (hfits : c.io.write_buf.Fits) (htype : c.io.type = .tcp)
    (hfd : c.io.fd ≠ -1) (hsize : payload.length < 2 ^ 63)
    (hlegal : ∀ effect ∈ (ioWrite c payload r now).effects, effect.Legal r.ret)
    (hfree : c.io.write_mutex = false) (hopen : c.io.closed = false) :
    Conserves c payload r.ret (ioWrite c payload r now) := by
  have hssl : c.lock.io.type ≠ .ssl := by simp [Conn.lock, htype]
  rw [ioWrite, if_neg (by simp [hfree])] at hlegal ⊢
  dsimp only at hlegal ⊢
  rw [if_neg (by simp [Conn.lock, hopen])] at hlegal ⊢
  split_ifs at hlegal ⊢ with hempty
  · cases happend : bufferAppendData c.lock.io.write_buf payload with
    | none => exact (closeAndReturn_closes rfl (-1)).conserves []
    | some new =>
        obtain ⟨hnew, hnewFits, -⟩ := bufferAppendData_some hfits hsize happend
        apply conserves_of_queued hnewFits (by simp [Conn.unlock, Conn.setWriteBuf, Conn.lock])
        simpa [Ran.accepted] using hnew
  · have hret : r.ret = -1 ∨ (0 ≤ r.ret ∧ r.ret ≤ payload.length) := by
      apply hlegal (.write payload)
      rw [ioWriteTcp, if_neg (show c.lock.io.fd ≠ -1 from hfd)]
      simp
    have h : Conserves c.lock payload r.ret (ioWriteTcp c.lock payload r now) :=
      ioWriteTcp_conserves hfits (by simpa using hempty) hsize hret hfd
    exact { h with }

theorem ioFlushed_conserves (hfits : c.io.write_buf.Fits) (h₀ : 0 ≤ r.ret)
    (h₁ : r.ret ≤ c.io.write_buf.unsent.length) :
    Conserves c [] r.ret
      ((ioFlushed c (int32 r.ret)).after [.write c.io.write_buf.unsent]) := by
  obtain ⟨hhead, htail, hmax⟩ := hfits
  have hmax' : maxIoBufSize = 2097152 := rfl
  rw [Buffer.unsent_length] at h₁
  rw [int32_of_lt (by omega) (by omega)]
  have hreport : ∀ (b : Bool) (offset len : ℕ),
      (if b then [Effect.writeCb .writeBuf offset len] else []).flatMap
        (Effect.accepted r.ret) = [] := by
    intro b offset len
    cases b <;> rfl
  by_cases hall : r.ret.toNat = c.io.write_buf.tail - c.io.write_buf.head
  · have hnew : { c.io.write_buf with head := 0, tail := 0 : Buffer }.Fits :=
      ⟨Nat.le_refl 0, Nat.zero_le _, hmax⟩
    apply conserves_of_queued hnew
    · simp [ioFlushed, hall, Conn.unlock, Conn.setWriteBuf]
    · have htake : c.io.write_buf.unsent.take r.ret.toNat = c.io.write_buf.unsent :=
        List.take_of_length_le (by simp [hall])
      have hreset : { c.io.write_buf with head := 0, tail := 0 : Buffer }.unsent = [] :=
        Buffer.unsent_of_empty rfl
      rw [hreset]
      simp [Ran.accepted, ioFlushed, hreport, htake]
  · have hhead' : c.io.write_buf.head + r.ret.toNat ≤ c.io.write_buf.tail := by omega
    have hnew : { c.io.write_buf with head := c.io.write_buf.head + r.ret.toNat : Buffer }.Fits :=
      ⟨hhead', htail, hmax⟩
    apply conserves_of_queued hnew
    · simp [ioFlushed, hall, Conn.unlock, Conn.setWriteBuf]
    · simp [Ran.accepted, ioFlushed, hreport, Buffer.unsent, slice_drop]

/-- `io_write_cb` on an open io; one that fails for good blocks, and loses nothing. -/
theorem ioWriteCb_conserves (hfits : c.io.write_buf.Fits)
    (hlegal : ∀ effect ∈ (ioWriteCb c r now).effects, effect.Legal r.ret)
    (hopen : c.io.closed = false) : Conserves c [] r.ret (ioWriteCb c r now) := by
  have hkeep : ∀ (io : Io) (value : Option Unit) (effects : List Effect),
      io.write_buf = c.io.write_buf ∧ io.type = c.io.type ∧ io.fd = c.io.fd →
        effects.flatMap (Effect.accepted r.ret) = [] →
        Conserves c [] r.ret ⟨⟨io, c.loop⟩, value, effects⟩ := by
    intro io value effects hio heffects
    apply conserves_of_queued hfits hio
    simp [Ran.accepted, heffects]
  rw [ioWriteCb, if_neg (by simp [hopen])] at hlegal ⊢
  by_cases hheld : c.io.write_mutex = true
  · rw [if_pos hheld]
    exact hkeep c.io none [] ⟨rfl, rfl, rfl⟩ rfl
  rw [if_neg hheld] at hlegal ⊢
  dsimp only at hlegal ⊢
  by_cases hempty : bufferIsEmpty c.io.write_buf = true
  · rw [if_pos (show bufferIsEmpty c.lock.io.write_buf = true from hempty)]
    exact hkeep _ _ [] ⟨rfl, rfl, rfl⟩ rfl
  · rw [if_neg (show ¬ bufferIsEmpty c.lock.io.write_buf = true from hempty)] at hlegal ⊢
    have hret : r.ret = -1 ∨ (0 ≤ r.ret ∧ r.ret ≤ c.io.write_buf.unsent.length) :=
      hlegal (.write c.io.write_buf.unsent) (by simp [Conn.lock])
    rcases hret with hfail | ⟨h₀, h₁⟩
    · have hneg : int32 r.ret < 0 := by rw [hfail]; decide
      have hnone : r.ret.toNat = 0 := by omega
      rw [if_pos hneg]
      split_ifs
      · exact hkeep _ _ _ ⟨rfl, rfl, rfl⟩ (by simp [hnone])
      · rw [ioClose_held (by simp [Conn.lock])]
        exact hkeep _ _ _ ⟨rfl, rfl, rfl⟩ (by simp [Ran.andThen, hnone])
    · have hmax : maxIoBufSize = 2097152 := rfl
      have hpos : ¬ int32 r.ret < 0 := by
        have htail := hfits.tail_le
        rw [hfits.max_eq] at htail
        rw [Buffer.unsent_length] at h₁
        rw [int32_of_lt (by omega) (by omega)]
        omega
      rw [if_neg hpos]
      have h := ioFlushed_conserves
        (c := { c.lock with io := { c.lock.io with last_write_time := now } }) hfits h₀ h₁
      exact { h with }

end Write

/-! ## Runs -/

/-- The write path preserves the byte stream. -/
def Stream (s : IoSystem) : Prop :=
  s.conn.io.closed = false →
    s.accepted ++ s.conn.io.write_buf.unsent = s.sent ∧
      s.conn.io.write_buf.head ≤ s.conn.io.write_buf.tail ∧
      s.conn.io.write_buf.tail ≤ s.conn.io.write_buf.maxSize

/-- What calls on a TCP io keep until it is closed; only one that blocks keeps the mutex. -/
structure Streaming (s : IoSystem) : Prop where
  bytes : s.conn.io.closed = false → s.accepted ++ s.conn.io.write_buf.unsent = s.sent
  fits : s.conn.io.closed = false → s.conn.io.write_buf.Fits
  tcp : s.conn.io.closed = false → s.conn.io.type = .tcp
  fd : s.conn.io.closed = false → s.conn.io.fd ≠ -1
  free : s.blocked = false → s.conn.io.write_mutex = false

theorem Streaming.stream {s : IoSystem} (h : Streaming s) : Stream s := fun hopen =>
  ⟨h.bytes hopen, (h.fits hopen).head_le, (h.fits hopen).tail_le⟩

theorem call_closed (call : IoCall) (h : c.io.closed = true) :
    (c.call call).conn.io.closed = true := by
  cases call with
  | write payload r now =>
      rw [Conn.call, Ran.andThen_unit]
      rw [ioWrite]
      dsimp only
      split_ifs with hheld hclosed
      · exact h
      · exact h
      all_goals exact absurd h hclosed
  | writeCb r now => simp [Conn.call, ioWriteCb, h]
  | close =>
      rw [Conn.call]
      cases hheld : c.io.write_mutex with
      | true => rw [ioClose_held hheld]; exact h
      | false => exact (ioClose_closes hheld).closed

theorem call_open {call : IoCall} (h : (c.call call).conn.io.closed = false) :
    c.io.closed = false := by
  by_contra hclosed
  rw [call_closed call (by simpa using hclosed)] at h
  cases h

theorem call_conserves (call : IoCall) (hfits : c.io.write_buf.Fits) (htype : c.io.type = .tcp)
    (hfd : c.io.fd ≠ -1) (hfree : c.io.write_mutex = false) (hopen : c.io.closed = false)
    (hlegal : ∀ effect ∈ (c.call call).effects, effect.Legal call.ret) :
    Conserves c call.payload call.ret (c.call call) := by
  cases call with
  | write payload r now =>
      simp only [Conn.call, Ran.andThen_unit] at hlegal ⊢
      have h := ioWrite_conserves hfits htype hfd payload.size_lt hlegal hfree hopen
      exact { h with }
  | writeCb r now => exact ioWriteCb_conserves hfits hlegal hopen
  | close => exact (ioClose_closes hfree).conserves []

theorem Streaming.call_free {s : IoSystem} (h : Streaming s) (call : IoCall)
    (hfree : s.conn.io.write_mutex = false)
    (hvalue : (s.conn.call call).value.isSome = true) :
    (s.conn.call call).conn.io.write_mutex = false := by
  cases call with
  | write payload r now =>
      refine ((call_released_iff _ hfree).mpr ?_).2
      intro hopen _ hssl
      exact absurd (h.tcp hopen) (by simp [hssl])
  | writeCb r now => exact ioWriteCb_free hfree hvalue
  | close => exact (ioClose_closes hfree).free

theorem Streaming.step {s t : IoSystem} {call : IoCall} (h : Streaming s)
    (hstep : s.legalStep call = some t) : Streaming t := by
  simp only [IoSystem.legalStep, IoSystem.step, Option.ite_none_right_eq_some,
    Option.ite_none_left_eq_some, Option.some.injEq, Bool.not_eq_true] at hstep
  obtain ⟨hlegal, hblocked, rfl⟩ := hstep
  have hfree := h.free hblocked
  have hconserves : (s.conn.call call).conn.io.closed = false →
      Conserves s.conn call.payload call.ret (s.conn.call call) := fun hopen =>
    call_conserves call (h.fits (call_open hopen)) (h.tcp (call_open hopen))
      (h.fd (call_open hopen)) hfree (call_open hopen) hlegal
  refine ⟨fun hopen => ?_, fun hopen => (hconserves hopen).fits hopen, fun hopen => ?_,
    fun hopen => ?_, fun hreturned => ?_⟩
  · have hbytes := (hconserves hopen).bytes hopen
    calc s.accepted ++ (s.conn.call call).accepted call.ret ++
          (s.conn.call call).conn.io.write_buf.unsent
        = s.accepted ++ (s.conn.io.write_buf.unsent ++ call.payload) := by
          rw [List.append_assoc, hbytes]
      _ = s.sent ++ call.payload := by rw [← List.append_assoc, h.bytes (call_open hopen)]
  · exact ((hconserves hopen).type_eq hopen).trans (h.tcp (call_open hopen))
  · rw [(hconserves hopen).fd_eq hopen]
    exact h.fd (call_open hopen)
  · exact h.call_free call hfree (by simpa using hreturned)

/-- The io of a TCP connection on descriptor `fd`, as `get_io` returns it and whatever is
set on it afterwards. -/
def Conn.tcp (c : Conn) (fd : ℕ) (malloced : ℕ → UInt8) : Conn :=
  let io := getIo fd malloced
  { c with io := { c.io with
      fd := io.fd
      type := io.type
      write_buf := io.write_buf
      write_mutex := io.write_mutex
      closed := io.closed } }

theorem streaming_start (c : Conn) (fd : ℕ) (malloced : ℕ → UInt8) :
    Streaming (.start (c.tcp fd malloced)) := by
  refine ⟨fun _ => ?_, fun _ => ⟨Nat.le_refl 0, Nat.zero_le _, rfl⟩, fun _ => rfl, fun _ => ?_,
    fun _ => rfl⟩
  · exact Buffer.unsent_of_empty rfl
  · simp only [IoSystem.start, Conn.tcp, getIo]
    omega

/-- Until the io is closed, what the system has accepted followed by what waits in the
buffer is what was written, whatever the calls and the results of the writes. -/
theorem stream_along (c : Conn) (fd : ℕ) (malloced : ℕ → UInt8) (run : List IoCall) :
    Along IoSystem.legalStep Stream (.start (c.tcp fd malloced)) run := by
  have hmeets : Meets IoSystem.legalStep (fun _ _ => True) (.start (c.tcp fd malloced)) run :=
    Meets.trivial run
  exact (along_of_meets (fun _ _ _ h _ hstep => Streaming.step h hstep)
    (streaming_start c fd malloced) hmeets).mono fun _ h => h.stream

end LibConn
