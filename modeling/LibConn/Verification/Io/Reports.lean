import LibConn.Model.WriteHistory
import LibConn.Verification.Io.Stream

/-! # What `write_cb` is told

`io_write` reports the part of a payload that `write` did not take, and `io_write_cb` counts
`head` in: the reports are right where a write takes all or nothing, and where a flush
starts at the front of the buffer. -/

namespace LibConn

open LibConn.Memory
open LibConn.Run

/-! ## What a call does -/

section Calls

variable {α : Type} {c : Conn} {payload : List UInt8} {r : WriteResult} {now : ℕ}

/-- The buffer with `bytes` appended. -/
def Buffer.appended (write_buf : Buffer) (bytes : List UInt8) : Buffer :=
  { write_buf with
    base := copy write_buf.base write_buf.tail bytes
    tail := u64 (write_buf.tail + bytes.length) }

theorem bufferAppendData_eq (write_buf : Buffer) (bytes : List UInt8) :
    bufferAppendData write_buf bytes =
      if write_buf.maxSize < u64 (write_buf.tail + bytes.length) then none
      else some (write_buf.appended bytes) := rfl

theorem ioClose_effects : ∀ effect ∈ (ioClose c).effects, effect = .closeCb := by
  intro effect heffect
  rw [ioClose] at heffect
  split_ifs at heffect
  · cases heffect
  · cases heffect
  all_goals
    dsimp only at heffect
    split_ifs at heffect
    · exact List.mem_singleton.mp heffect
    · cases heffect

/-- A call that makes the calls in `told` and perhaps `close_cb`. It closes the io in the case
`full`, and leaves the buffer `new` otherwise. -/
structure Wrote (c : Conn) (told : List Effect) (full : Prop) (new : Buffer) (ran : Ran α) :
    Prop where
  effects : ∃ closing, (∀ effect ∈ closing, effect = .closeCb) ∧ ran.effects = told ++ closing
  closed : ran.conn.io.closed = true ↔ full
  write_buf : ¬ full → ran.conn.io.write_buf = new
  write_cb : ¬ full → ran.conn.io.write_cb = c.io.write_cb

theorem Wrote.after {told : List Effect} {full : Prop} {new : Buffer} {ran : Ran α}
    (h : Wrote c told full new ran) (before : List Effect) :
    Wrote c (before ++ told) full new (ran.after before) := by
  obtain ⟨closing, hclosing, heffects⟩ := h.effects
  refine ⟨⟨closing, hclosing, ?_⟩, h.closed, h.write_buf, h.write_cb⟩
  rw [Ran.after_effects, heffects, List.append_assoc]

theorem Wrote.told {full : Prop} {new : Buffer} {ran : Ran α} (h : Wrote c [] full new ran)
    (before : List Effect) : Wrote c before full new (ran.after before) := by
  have htold := h.after before
  rwa [List.append_nil] at htold

theorem wrote_close {c' : Conn} (hfree : c'.io.write_mutex = false) (value : ℤ) {full : Prop}
    (hfull : full) (new : Buffer) : Wrote c [] full new (closeAndReturn c' value) := by
  have hclose := ioClose_closes hfree
  rw [closeAndReturn, Ran.andThen_some hclose.value_eq]
  refine ⟨⟨_, ioClose_effects (c := c'), ?_⟩, iff_of_true hclose.closed hfull,
    fun h => absurd hfull h, fun h => absurd hfull h⟩
  rw [Ran.after_effects, List.append_nil, List.nil_append]

theorem ioWrite_wrote_busy (payload : List UInt8) (r : WriteResult) (now : ℕ)
    (hfree : c.io.write_mutex = false) (hopen : c.io.closed = false)
    (hbusy : bufferIsEmpty c.io.write_buf = false) :
    Wrote c [] (c.io.write_buf.maxSize < u64 (c.io.write_buf.tail + payload.length))
      (c.io.write_buf.appended payload) (ioWrite c payload r now) := by
  rw [ioWrite_busy hfree hopen hbusy, bufferAppendData_eq]
  split_ifs with hfull
  · exact wrote_close rfl (-1) hfull _
  · refine ⟨⟨[], by simp, rfl⟩, iff_of_false ?_ hfull, fun _ => rfl, fun _ => rfl⟩
    exact Bool.not_eq_true _ ▸ hopen

/-- What `io_write` tells of a write that took `n` of `len` bytes. -/
def toldDirect (c : Conn) (len : ℕ) (n : ℤ) : List Effect :=
  if n < 0 then []
  else if n < len then writeCb c n.toNat (len - n.toNat)
  else writeCb c 0 len

/-- An `io_write` that finds the buffer empty closes the io where the write fails for good, or
where the rest has no room. -/
def directFull (write_buf : Buffer) (payload : List UInt8) (r : WriteResult) : Prop :=
  (int32 r.ret < 0 ∧ r.errno.again = false) ∨
    (int32 r.ret < payload.length ∧
      write_buf.maxSize < u64 (write_buf.tail + (payload.drop (int32 r.ret).toNat).length))

/-- What it leaves in the buffer otherwise. -/
def directRest (write_buf : Buffer) (payload : List UInt8) (r : WriteResult) : Buffer :=
  if int32 r.ret < payload.length then write_buf.appended (payload.drop (int32 r.ret).toNat)
  else write_buf

theorem wrote_done (c' : Conn) (nwrite : ℤ) {full : Prop} {new : Buffer} (hfull : ¬ full)
    (hopen : c'.io.closed = false) (hbuf : c'.io.write_buf = new)
    (hcb : c'.io.write_cb = c.io.write_cb) :
    Wrote c [] full new (ioWriteDone c' nwrite now) := by
  refine ⟨⟨[], by simp, rfl⟩, iff_of_false ?_ hfull, fun _ => ?_, fun _ => ?_⟩ <;>
    rw [ioWriteDone] <;> dsimp only
  · split_ifs <;> simpa [Conn.unlock] using hopen
  · split_ifs <;> exact hbuf
  · split_ifs <;> exact hcb

/-- `io_write` when nothing waits. -/
theorem ioWrite_wrote_direct (payload : List UInt8) (r : WriteResult) (now : ℕ)
    (hfree : c.io.write_mutex = false) (hopen : c.io.closed = false)
    (htype : c.io.type = .tcp) (hfd : c.io.fd ≠ -1)
    (hempty : bufferIsEmpty c.io.write_buf = true) :
    Wrote c (.write payload :: toldDirect c payload.length (int32 r.ret))
      (directFull c.io.write_buf payload r) (directRest c.io.write_buf payload r)
      (ioWrite c payload r now) := by
  rw [ioWrite_empty hfree hopen hempty, if_neg (by simp [htype]), ioWriteTcp,
    if_neg (show c.lock.io.fd ≠ -1 from hfd), ← List.singleton_append]
  refine Wrote.after ?_ _
  have hbuf : c.lock.io.write_buf = c.io.write_buf := rfl
  rw [toldDirect, directFull, directRest]
  dsimp only
  by_cases hneg : int32 r.ret < 0
  · have hnone : (int32 r.ret).toNat = 0 := by omega
    have hless : int32 r.ret < payload.length := by omega
    simp only [hneg, hless, if_true, true_and, hnone, List.drop_zero]
    cases hagain : r.errno.again with
    | false => exact wrote_close rfl (-1) (.inl rfl) _
    | true =>
        simp only [if_true, Bool.true_eq_false, false_or]
        rw [hbuf, bufferAppendData_eq]
        split_ifs with hfull
        · exact wrote_close rfl 0 hfull _
        · exact ⟨⟨[], by simp, rfl⟩, iff_of_false (by simpa [Conn.unlock, Conn.setWriteBuf,
            Conn.lock] using hopen) hfull, fun _ => by simp [Conn.unlock, Conn.setWriteBuf],
            fun _ => by simp [Conn.unlock, Conn.setWriteBuf, Conn.lock]⟩
  · simp only [hneg, if_false, false_and, false_or]
    by_cases hless : int32 r.ret < payload.length
    · have hreport : writeCb c.lock (int32 r.ret).toNat (payload.length - (int32 r.ret).toNat) =
          writeCb c (int32 r.ret).toNat (payload.length - (int32 r.ret).toNat) := rfl
      simp only [hless, if_true, true_and, hreport]
      refine Wrote.told ?_ _
      rw [hbuf, bufferAppendData_eq]
      split_ifs with hfull
      · exact wrote_close rfl _ hfull _
      · apply wrote_done _ _ hfull
        · simpa [Conn.setWriteBuf, Conn.lock] using hopen
        · simp [Conn.setWriteBuf]
        · simp [Conn.setWriteBuf, Conn.lock]
    · have hdone : Wrote c [] False c.io.write_buf (ioWriteDone c.lock (int32 r.ret) now) :=
        wrote_done c.lock _ not_false hopen rfl rfl
      simp only [hless, if_false, false_and]
      exact hdone.told _

/-- What `io_write_cb` tells of a write that took `n` bytes. -/
def toldFlush (c : Conn) (n : ℤ) : List Effect :=
  if n < 0 then []
  else if c.io.write_cb then
    [.writeCb .writeBuf c.io.write_buf.head (c.io.write_buf.head + n.toNat)]
  else []

/-- What it leaves in the buffer. -/
def flushRest (write_buf : Buffer) (n : ℤ) : Buffer :=
  if n < 0 then write_buf
  else if n.toNat = write_buf.tail - write_buf.head then { write_buf with head := 0, tail := 0 }
  else { write_buf with head := write_buf.head + n.toNat }

theorem ioFlushed_wrote {c' : Conn} (n : ℤ) (hneg : ¬ n < 0) (hopen : ¬ c'.io.closed = true)
    (hbuf : c'.io.write_buf = c.io.write_buf) (hcb : c'.io.write_cb = c.io.write_cb) :
    Wrote c (toldFlush c n) False (flushRest c.io.write_buf n) (ioFlushed c' n) := by
  rw [toldFlush, if_neg hneg, flushRest, if_neg hneg, ioFlushed, hbuf, hcb]
  exact ⟨⟨[], by simp, (List.append_nil _).symm⟩, iff_of_false hopen not_false, fun _ => rfl,
    fun _ => hcb⟩

/-- `io_write_cb` when nothing waits. -/
theorem ioWriteCb_wrote_empty (r : WriteResult) (now : ℕ) (hfree : c.io.write_mutex = false)
    (hopen : c.io.closed = false)
    (hempty : bufferIsEmpty c.io.write_buf = true) :
    Wrote c [] False c.io.write_buf (ioWriteCb c r now) := by
  rw [ioWriteCb_open hfree hopen, if_pos hempty]
  refine ⟨⟨[], by simp, rfl⟩, iff_of_false ?_ not_false, fun _ => rfl, fun _ => rfl⟩
  simpa [Conn.unlock, Conn.stamped, Conn.lock] using hopen

/-- `io_write_cb` when bytes wait. Where its write fails for good it does not return, and the
io stays open. -/
theorem ioWriteCb_wrote_busy (r : WriteResult) (now : ℕ) (hfree : c.io.write_mutex = false)
    (hopen : c.io.closed = false)
    (hbusy : bufferIsEmpty c.io.write_buf = false) :
    Wrote c (.write c.io.write_buf.unsent :: toldFlush c (int32 r.ret)) False
      (flushRest c.io.write_buf (int32 r.ret)) (ioWriteCb c r now) := by
  have hopen' : ¬ (c.stamped now).io.closed = true := by simp [Conn.stamped, Conn.lock, hopen]
  rw [ioWriteCb_open hfree hopen, if_neg (by simp [hbusy]), ← List.singleton_append]
  refine Wrote.after ?_ _
  by_cases hneg : int32 r.ret < 0
  · rw [if_pos hneg, toldFlush, if_pos hneg, flushRest, if_pos hneg]
    split_ifs
    · exact ⟨⟨[], by simp, rfl⟩, iff_of_false hopen' not_false, fun _ => rfl, fun _ => rfl⟩
    · exact ⟨⟨[], by simp, rfl⟩, iff_of_false hopen' not_false, fun _ => rfl, fun _ => rfl⟩
  · rw [if_neg hneg]
    exact ioFlushed_wrote _ hneg hopen' rfl rfl

end Calls

/-! ## What is told -/

/-- The ranges shown to `write_cb` lie where they should, and hold what `write` accepted. -/
structure Tells (payload : List UInt8) (write_buf : Buffer) (ret : ℤ) (effects : List Effect) :
    Prop where
  same : effects.flatMap (Effect.reported payload write_buf) =
    effects.flatMap (Effect.accepted ret)
  inside : effects.all (Effect.inside payload write_buf) = true

/-- A `write` took all of the payload or nothing, or else the rest is as long as what it took,
as an `int`, and repeats it. -/
def WellTaken (payload : List UInt8) (ret : ℤ) : Prop :=
  ret < 2 ^ 31 ∧ (ret < 0 ∨ ret = payload.length ∨
    (int32 (payload.length - ret) = ret ∧
      payload.take ret.toNat = (payload.drop ret.toNat).take ret.toNat))

section Told

variable {payload : List UInt8} {write_buf : Buffer} {ret : ℤ} {c : Conn}

@[simp] theorem reported_write (bytes : List UInt8) :
    (Effect.write bytes).reported payload write_buf = [] := rfl

@[simp] theorem reported_closeCb : Effect.closeCb.reported payload write_buf = [] := rfl

@[simp] theorem accepted_report (source : Source) (offset len : ℕ) :
    (Effect.writeCb source offset len).accepted ret = [] := rfl

@[simp] theorem accepted_closeCb : Effect.closeCb.accepted ret = [] := rfl

@[simp] theorem inside_write (bytes : List UInt8) :
    (Effect.write bytes).inside payload write_buf = true := rfl

@[simp] theorem inside_closeCb : Effect.closeCb.inside payload write_buf = true := rfl

theorem tells_iff (effects : List Effect) :
    Tells payload write_buf ret effects ↔
      effects.flatMap (Effect.reported payload write_buf) =
          effects.flatMap (Effect.accepted ret) ∧
        effects.all (Effect.inside payload write_buf) = true :=
  ⟨fun h => ⟨h.same, h.inside⟩, fun h => ⟨h.1, h.2⟩⟩

theorem flatMap_append_close {told closing : List Effect} {f : Effect → List UInt8}
    (hf : f .closeCb = []) (hclosing : ∀ effect ∈ closing, effect = .closeCb) :
    (told ++ closing).flatMap f = told.flatMap f := by
  have hnone : closing.flatMap f = [] :=
    List.flatMap_eq_nil_iff.mpr fun effect heffect => hclosing effect heffect ▸ hf
  rw [List.flatMap_append, hnone, List.append_nil]

theorem tells_append_close {told closing : List Effect}
    (hclosing : ∀ effect ∈ closing, effect = .closeCb) :
    Tells payload write_buf ret (told ++ closing) ↔ Tells payload write_buf ret told := by
  have hinside : closing.all (Effect.inside payload write_buf) = true :=
    List.all_eq_true.mpr fun effect heffect => hclosing effect heffect ▸ rfl
  rw [tells_iff, tells_iff, List.all_append, hinside, Bool.and_true,
    flatMap_append_close rfl hclosing, flatMap_append_close rfl hclosing]

theorem tells_nil : Tells payload write_buf ret [] :=
  ⟨rfl, rfl⟩

/-- A write of which nothing is told. -/
theorem tells_silent_iff (bytes : List UInt8) :
    Tells payload write_buf ret [.write bytes] ↔ bytes.take ret.toNat = [] := by
  rw [tells_iff, List.flatMap_singleton, List.flatMap_singleton, reported_write, accepted_write]
  exact ⟨fun h => h.1.symm, fun h => ⟨h.symm, rfl⟩⟩

theorem tells_range_iff (bytes : List UInt8) (source : Source) (offset len : ℕ) :
    Tells payload write_buf ret [.write bytes, .writeCb source offset len] ↔
      (Effect.writeCb source offset len).reported payload write_buf = bytes.take ret.toNat ∧
        (Effect.writeCb source offset len).inside payload write_buf = true := by
  rw [tells_iff]
  simp

theorem told_count {ret n m : ℤ} {len : ℕ} (hlegal : ret = -1 ∨ (0 ≤ ret ∧ ret ≤ len))
    (hn : -(2 ^ 31) ≤ n ∧ n < 2 ^ 31 ∧ n % 2 ^ 32 = ret % 2 ^ 32)
    (hm : -(2 ^ 31) ≤ m ∧ m < 2 ^ 31 ∧ m % 2 ^ 32 = (len - n.toNat : ℕ) % 2 ^ 32)
    (hneg : ¬ n < 0) (hpos : 0 ≤ m) (hinside : n.toNat + m.toNat ≤ len)
    (hsame : min m.toNat (len - n.toNat) = min ret.toNat len) :
    ret < 2 ^ 31 ∧ n = ret ∧ m = ret := by
  omega

theorem tells_rest_iff {n m : ℤ} (hlegal : ret = -1 ∨ (0 ≤ ret ∧ ret ≤ payload.length))
    (hn : int32 ret = n) (hm : int32 (payload.length - n.toNat : ℕ) = m) (hneg : ¬ n < 0)
    (hless : n < payload.length) :
    Tells payload write_buf ret
        [.write payload, .writeCb .payload n.toNat (payload.length - n.toNat)] ↔
      WellTaken payload ret := by
  have hn' := int32_bounds ret
  have hm' := int32_bounds (payload.length - n.toNat : ℕ)
  rw [tells_range_iff]
  simp only [Effect.reported, Effect.inside, decide_eq_true_eq]
  rw [WellTaken]
  rw [hm] at hm' ⊢
  rw [hn] at hn'
  constructor
  · rintro ⟨hsame, hpos, hinside⟩
    have hlength := congrArg List.length hsame
    rw [List.length_take, List.length_drop, List.length_take] at hlength
    obtain ⟨hsmall, hret, hrest⟩ := told_count hlegal hn' hm' hneg hpos hinside hlength
    have hsize : ((payload.length - n.toNat : ℕ) : ℤ) = payload.length - ret := by omega
    rw [hsize, hrest] at hm
    rw [hret, hrest] at hsame
    exact ⟨hsmall, .inr (.inr ⟨hm, hsame.symm⟩)⟩
  · rintro ⟨hsmall, hfail | hall | ⟨hsize, htwin⟩⟩
    · omega
    · omega
    · have hret : n = ret := hn.symm.trans (int32_of_lt (by omega) hsmall)
      have hrest : ((payload.length - n.toNat : ℕ) : ℤ) = payload.length - ret := by omega
      rw [hrest] at hm
      obtain rfl : m = ret := hm.symm.trans hsize
      rw [hret]
      exact ⟨htwin.symm, by omega, by omega⟩

/-- What is told of a payload that `write` was given at once. -/
theorem tells_direct_iff (hcb : c.io.write_cb = true)
    (hlegal : ret = -1 ∨ (0 ≤ ret ∧ ret ≤ payload.length)) :
    Tells payload write_buf ret (.write payload :: toldDirect c payload.length (int32 ret)) ↔
      WellTaken payload ret := by
  obtain ⟨hlow, hhigh, hmod⟩ := int32_bounds ret
  rw [toldDirect]
  by_cases hneg : int32 ret < 0
  · rw [if_pos hneg, tells_silent_iff, WellTaken]
    constructor
    · intro hnone
      have hzero := congrArg List.length hnone
      rw [List.length_take, List.length_nil] at hzero
      omega
    · rintro ⟨hsmall, -⟩
      have hzero : ret.toNat = 0 := by omega
      rw [hzero, List.take_zero]
  rw [if_neg hneg]
  by_cases hless : int32 ret < payload.length
  · rw [if_pos hless, writeCb, if_pos hcb]
    exact tells_rest_iff hlegal rfl rfl hneg hless
  · rw [if_neg hless, writeCb, if_pos hcb, tells_range_iff]
    have hret : ret = payload.length := by omega
    have hsize : int32 payload.length = payload.length := int32_of_lt (by omega) (by omega)
    refine iff_of_true ⟨?_, ?_⟩ ⟨by omega, .inr (.inl hret)⟩
    · rw [Effect.reported, hsize, hret]
      rfl
    · rw [Effect.inside, hsize]
      simp

theorem tells_flush_iff (hcb : c.io.write_cb = true) (hfits : c.io.write_buf.Fits)
    (hlegal : ret = -1 ∨ (0 ≤ ret ∧ ret ≤ c.io.write_buf.unsent.length)) :
    Tells payload c.io.write_buf ret
        (.write c.io.write_buf.unsent :: toldFlush c (int32 ret)) ↔
      (0 ≤ ret → c.io.write_buf.head = 0) := by
  obtain ⟨hhead, htail, hmax⟩ := hfits
  have hmax' : maxIoBufSize = 2097152 := rfl
  rw [Buffer.unsent_length] at hlegal
  have hret : int32 ret = ret := int32_of_lt (by omega) (by omega)
  rw [toldFlush, hret]
  by_cases hneg : ret < 0
  · have hzero : ret.toNat = 0 := by omega
    rw [if_pos hneg, tells_silent_iff, hzero]
    exact iff_of_true (List.take_zero) (fun h => absurd hneg (Int.not_lt.mpr h))
  · generalize hsum : c.io.write_buf.head + ret.toNat = sum
    have hsmall : int32 sum = sum := int32_of_lt (by omega) (by omega)
    rw [if_neg hneg, if_pos hcb, tells_range_iff, Effect.reported, Effect.inside, hsmall,
      Int.toNat_natCast, decide_eq_true_eq]
    constructor
    · rintro ⟨hsame, -⟩ -
      have hlength := congrArg List.length hsame
      rw [slice_length, List.length_take, Buffer.unsent_length] at hlength
      omega
    · intro h
      have hzero : c.io.write_buf.head = 0 := h (by omega)
      have hstart : c.io.write_buf.head + sum = c.io.write_buf.head + ret.toNat := by omega
      have hroom : c.io.write_buf.head + ret.toNat ≤ c.io.write_buf.tail := by omega
      refine ⟨?_, by omega, by omega, by omega⟩
      rw [hstart, Buffer.unsent, slice_take hroom]

end Told

/-! ## Runs -/

/-- Everything that `write` accepted has been told, and nothing else. -/
structure ToldAll (s : WriteHistory) : Prop where
  same : s.reported = s.sys.accepted
  inside : s.inside = true

/-- A write that finds the buffer empty takes all, nothing or one half of two equal ones, and
a flush that takes bytes begins at the front. -/
def TellsRight (s : WriteHistory) : IoCall → Prop
  | .write payload r _ =>
      s.sys.conn.io.closed = false → bufferIsEmpty s.sys.conn.io.write_buf = true →
        WellTaken payload.bytes r.ret
  | .writeCb r _ =>
      s.sys.conn.io.closed = false → bufferIsEmpty s.sys.conn.io.write_buf = false →
        0 ≤ r.ret → s.sys.conn.io.write_buf.head = 0
  | .close => True

/-- A TCP io that streams, with a `write_cb`, and what its history keeps. -/
structure Telling (s : WriteHistory) : Prop where
  streaming : Streaming s.sys
  write_cb : s.sys.conn.io.closed = false → s.sys.conn.io.write_cb = true
  told : ToldAll s

variable {s t : WriteHistory} {call : IoCall}

theorem WriteHistory.step_some (h : s.step call = some t) :
    s.sys.blocked = false ∧ s.sys.legalStep call = some t.sys ∧
      (∀ effect ∈ (s.sys.conn.call call).effects, effect.Legal call.ret) ∧
      t.sys.conn = (s.sys.conn.call call).conn ∧
      t.sys.accepted = s.sys.accepted ++
        (s.sys.conn.call call).effects.flatMap (Effect.accepted call.ret) := by
  obtain ⟨sys, hsys, rfl⟩ := Option.map_eq_some_iff.mp h
  have hlegal := hsys
  simp only [IoSystem.legalStep, IoSystem.step, Option.ite_none_right_eq_some,
    Option.ite_none_left_eq_some, Option.some.injEq, Bool.not_eq_true] at hlegal
  obtain ⟨hlegal, hblocked, rfl⟩ := hlegal
  exact ⟨hblocked, hsys, hlegal, rfl, rfl⟩

theorem Wrote.unit {α : Type} {c : Conn} {told : List Effect} {full : Prop} {new : Buffer}
    {ran : Ran α} (h : Wrote c told full new ran) :
    Wrote c told full new (ran.andThen fun c => (⟨c, some (), []⟩ : Ran Unit)) := by
  rw [Ran.andThen_unit]
  exact { h with }

/-- A call on an open io tells what it should exactly where `TellsRight` says so. -/
theorem Telling.wrote (h : Telling s) (hopen : s.sys.conn.io.closed = false)
    (hfree : s.sys.conn.io.write_mutex = false)
    (hlegal : ∀ effect ∈ (s.sys.conn.call call).effects, effect.Legal call.ret) :
    ∃ told full new, Wrote s.sys.conn told full new (s.sys.conn.call call) ∧
      (Tells call.payload s.sys.conn.io.write_buf call.ret told ↔ TellsRight s call) := by
  have hfits := h.streaming.fits hopen
  have hcb := h.write_cb hopen
  have hmem : ∀ {told full new} {bytes : List UInt8},
      Wrote s.sys.conn (.write bytes :: told) full new (s.sys.conn.call call) →
        call.ret = -1 ∨ (0 ≤ call.ret ∧ call.ret ≤ bytes.length) := by
    intro told full new bytes hwrote
    obtain ⟨closing, -, heffects⟩ := hwrote.effects
    exact hlegal (.write bytes) (by simp [heffects])
  cases call with
  | write payload r now =>
      cases hempty : bufferIsEmpty s.sys.conn.io.write_buf with
      | true =>
          have hwrote := (ioWrite_wrote_direct payload.bytes r now
            hfree hopen (h.streaming.tcp hopen) (h.streaming.fd hopen) hempty).unit
          refine ⟨_, _, _, hwrote, (tells_direct_iff hcb (hmem hwrote)).trans ?_⟩
          simp [TellsRight, hopen, hempty, IoCall.ret]
      | false =>
          refine ⟨_, _, _, (ioWrite_wrote_busy payload.bytes r now hfree hopen hempty).unit, ?_⟩
          simp [TellsRight, hempty, tells_nil]
  | writeCb r now =>
      cases hempty : bufferIsEmpty s.sys.conn.io.write_buf with
      | true =>
          refine ⟨_, _, _, ioWriteCb_wrote_empty r now hfree hopen hempty, ?_⟩
          simp [TellsRight, hempty, tells_nil]
      | false =>
          have hwrote := ioWriteCb_wrote_busy r now hfree hopen hempty
          refine ⟨_, _, _, hwrote, (tells_flush_iff hcb hfits (hmem hwrote)).trans ?_⟩
          simp [TellsRight, hopen, hempty, IoCall.ret]
  | close =>
      have hclose := ioClose_closes hfree
      refine ⟨[], True, s.sys.conn.io.write_buf, ⟨⟨_, ioClose_effects, rfl⟩,
        iff_of_true hclose.closed trivial, fun h => absurd trivial h,
        fun h => absurd trivial h⟩, ?_⟩
      exact iff_of_true tells_nil trivial

theorem call_closed_effects {c : Conn} (call : IoCall) (hclosed : c.io.closed = true)
    (hfree : c.io.write_mutex = false) : (c.call call).effects = [] := by
  cases call with
  | write payload r now =>
      rw [Conn.call, Ran.andThen_unit, ioWrite_closed hclosed hfree]
  | writeCb r now => rw [Conn.call, ioWriteCb_closed hclosed]
  | close => rw [Conn.call, ioClose_closed hclosed hfree]

/-- A step tells what it should exactly where its call does. -/
theorem Telling.tells_iff (h : Telling s) (hstep : s.step call = some t) :
    Tells call.payload s.sys.conn.io.write_buf call.ret (s.sys.conn.call call).effects ↔
      TellsRight s call := by
  obtain ⟨hblocked, -, hlegal, -, -⟩ := WriteHistory.step_some hstep
  have hfree := h.streaming.free hblocked
  cases hopen : s.sys.conn.io.closed with
  | true =>
      rw [call_closed_effects call hopen hfree]
      refine iff_of_true tells_nil ?_
      cases call with
      | write payload r now => exact fun h => absurd (hopen.symm.trans h) (by simp)
      | writeCb r now => exact fun h => absurd (hopen.symm.trans h) (by simp)
      | close => trivial
  | false =>
      obtain ⟨told, full, new, hwrote, hiff⟩ := h.wrote hopen hfree hlegal
      obtain ⟨closing, hclosing, heffects⟩ := hwrote.effects
      rw [heffects, tells_append_close hclosing]
      exact hiff

theorem Telling.told_iff (h : Telling s) (hstep : s.step call = some t) :
    ToldAll t ↔ TellsRight s call := by
  rw [← h.tells_iff hstep]
  obtain ⟨sys, hsys, rfl⟩ := Option.map_eq_some_iff.mp hstep
  obtain ⟨-, -, -, -, haccepted⟩ := WriteHistory.step_some hstep
  dsimp only at haccepted
  constructor
  · rintro ⟨hsame, hinside⟩
    rw [haccepted, h.told.same, List.append_right_inj] at hsame
    exact ⟨hsame, (Bool.and_eq_true _ _ ▸ hinside).2⟩
  · rintro ⟨hsame, hinside⟩
    refine ⟨?_, ?_⟩
    · rw [haccepted, h.told.same, hsame]
    · dsimp only
      rw [h.told.inside, hinside]
      rfl

theorem Telling.step (h : Telling s) (hg : TellsRight s call) (hstep : s.step call = some t) :
    Telling t := by
  obtain ⟨hblocked, hsys, hlegal, hconn, -⟩ := WriteHistory.step_some hstep
  refine ⟨h.streaming.step hsys, fun hopen => ?_, (h.told_iff hstep).mpr hg⟩
  rw [hconn] at hopen ⊢
  have hwas : s.sys.conn.io.closed = false := call_open hopen
  obtain ⟨told, full, new, hwrote, -⟩ := h.wrote hwas (h.streaming.free hblocked) hlegal
  have hroom : ¬ full := fun hfull => by simp [hwrote.closed.mpr hfull] at hopen
  exact (hwrote.write_cb hroom).trans (h.write_cb hwas)

theorem telling_start (c : Conn) (fd : ℕ) (malloced : ℕ → UInt8) :
    Telling (.start (c.tcp fd malloced).reporting) := by
  have hstreaming : Streaming (.start (c.tcp fd malloced)) := streaming_start c fd malloced
  exact ⟨{ hstreaming with },
    fun _ => rfl, rfl, rfl⟩

/-- `write_cb` is told exactly what `write` accepts as long as writes and flushes go as
`TellsRight` says. -/
theorem toldAll_iff_tellsRight (c : Conn) (fd : ℕ) (malloced : ℕ → UInt8) (run : List IoCall) :
    Along WriteHistory.step ToldAll (.start (c.tcp fd malloced).reporting) run ↔
      Meets WriteHistory.step TellsRight (.start (c.tcp fd malloced).reporting) run :=
  along_iff_meets (fun _ h => h.told) (fun _ _ _ h hg hstep => h.step hg hstep)
    (fun _ _ _ h hstep ht => (h.told_iff hstep).mp ht) run (telling_start c fd malloced)

/-- Of three bytes, `write` takes the first one, and `write_cb` is shown the other two. -/
theorem not_toldAll_partial :
    ¬ Along WriteHistory.step ToldAll
      (.start (Conn.tcp ⟨getIo 5 fun _ => 0, loopInit 0 0 (fun _ => Timer.zero) fun _ => none⟩ 5
        fun _ => 0).reporting)
      [.write ⟨[1, 2, 3], by decide⟩ ⟨1, .other, .other⟩ 0] := by
  intro h
  have hsame := (h.exec (Option.some_get (by decide +kernel)).symm).same
  revert hsame
  decide +kernel

end LibConn
