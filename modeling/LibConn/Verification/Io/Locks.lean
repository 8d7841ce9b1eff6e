import LibConn.Shared.Run
import LibConn.Verification.Io.Calls

/-! # The mutex of an io

Each call takes `write_mutex` at its start. Two exits of the SSL branch of `io_write` keep
it, and `io_write_cb` closes the io under it; every other exit gives it back. -/

namespace LibConn

open LibConn.Run

variable {α : Type} {c : Conn} {buf : List UInt8} {r : WriteResult} {now : ℕ}

/-- The call returns, with the mutex released. -/
def Ran.Released (ran : Ran α) : Prop :=
  ran.value.isSome = true ∧ ran.conn.io.write_mutex = false

/-- An SSL write that would block, or that leaves a rest the buffer has room for. -/
def KeepsMutex (write_buf : Buffer) (buf : List UInt8) (r : WriteResult) : Prop :=
  let nwrite := int32 r.ret
  (nwrite < 0 ∧ r.ssl_err.want = true) ∨
    (0 ≤ nwrite ∧ nwrite < buf.length ∧
      u64 (write_buf.tail + (buf.length - nwrite.toNat : ℕ)) ≤ write_buf.maxSize)

/-- The conditions under which a call gives the mutex back. -/
def LockGuard (s : IoSystem) : IoCall → Prop
  | .write payload r _ =>
      s.conn.io.closed = false → bufferIsEmpty s.conn.io.write_buf = true →
        s.conn.io.type = .ssl → ¬ KeepsMutex s.conn.io.write_buf payload.bytes r
  | .writeCb r _ =>
      s.conn.io.closed = false → bufferIsEmpty s.conn.io.write_buf = false →
        int32 r.ret < 0 → r.again s.conn.io.type = true
  | .close => True

/-! ## Exits -/

@[simp] theorem released_after (effects : List Effect) (ran : Ran α) :
    (ran.after effects).Released ↔ ran.Released := Iff.rfl

@[simp] theorem released_mk {value : α} {effects : List Effect} :
    (⟨c, some value, effects⟩ : Ran α).Released ↔ c.io.write_mutex = false := by
  simp [Ran.Released]

theorem Closes.released {ran : Ran α} {value : α} (h : Closes c ran value) : ran.Released :=
  ⟨by simp [h.value_eq], h.free⟩

theorem closeAndReturn_released (value : ℤ) : (closeAndReturn c.unlock value).Released :=
  (closeAndReturn_closes rfl value).released

theorem bufferAppendData_eq_none_iff {write_buf : Buffer} :
    bufferAppendData write_buf buf = none ↔
      ¬ u64 (write_buf.tail + buf.length) ≤ write_buf.maxSize := by
  simp [bufferAppendData]

theorem ioWriteSsl_released_iff (hheld : c.io.write_mutex = true) :
    (ioWriteSsl c buf r).Released ↔ ¬ KeepsMutex c.io.write_buf buf r := by
  rw [ioWriteSsl, released_after, KeepsMutex]
  dsimp only
  split_ifs with hneg hwant hpart
  · simp [hheld, hneg, hwant]
  · simpa [hneg, hwant, Int.not_le.mpr hneg] using closeAndReturn_released _
  · have hnonneg : 0 ≤ int32 r.ret := Int.not_lt.mp hneg
    rw [released_after]
    cases happend : bufferAppendData c.io.write_buf (buf.drop (int32 r.ret).toNat) with
    | none =>
        have hroom := bufferAppendData_eq_none_iff.mp happend
        rw [List.length_drop] at hroom
        simpa [hneg, hnonneg, hpart, hroom] using closeAndReturn_released _
    | some new =>
        have hroom : u64 (c.io.write_buf.tail + (buf.length - (int32 r.ret).toNat : ℕ)) ≤
            c.io.write_buf.maxSize := by
          by_contra hfull
          rw [← List.length_drop, ← bufferAppendData_eq_none_iff, happend] at hfull
          cases hfull
        simp [hneg, hnonneg, hpart, hroom, hheld, Conn.setWriteBuf]
  · simp [hneg, hpart, Conn.unlock]

theorem ioWriteDone_released (nwrite : ℤ) : (ioWriteDone c nwrite now).Released := by
  simp [ioWriteDone, Conn.unlock]

theorem ioWriteTcp_released : (ioWriteTcp c buf r now).Released := by
  rw [ioWriteTcp]
  dsimp only
  split_ifs
  · simp [Conn.unlock]
  · rw [released_after]
    split
    · exact closeAndReturn_released 0
    · simp [Conn.unlock]
  · exact closeAndReturn_released (-1)
  · rw [released_after, released_after]
    split
    · exact closeAndReturn_released _
    · exact ioWriteDone_released _
  · exact ioWriteDone_released _

theorem ioWrite_released_iff (hfree : c.io.write_mutex = false) :
    (ioWrite c buf r now).Released ↔
      (c.io.closed = false → bufferIsEmpty c.io.write_buf = true → c.io.type = .ssl →
        ¬ KeepsMutex c.io.write_buf buf r) := by
  rw [ioWrite, if_neg (by simp [hfree])]
  dsimp only
  split_ifs with hclosed hempty hssl
  · have hclosed' : c.io.closed = true := hclosed
    simp [hclosed', Conn.unlock]
  · have hempty' : bufferIsEmpty c.io.write_buf = false := hempty
    simp only [hempty', Bool.false_eq_true, false_implies, implies_true, iff_true]
    split
    · exact closeAndReturn_released (-1)
    · simp [Conn.unlock]
  · have hopen : c.io.closed = false := Bool.not_eq_true _ ▸ hclosed
    have hempty' : bufferIsEmpty c.io.write_buf = true := (Bool.not_eq_false _).mp hempty
    have hssl' : c.io.type = .ssl := hssl
    simp only [hopen, hempty', hssl', forall_const]
    exact ioWriteSsl_released_iff (c := c.lock) rfl
  · have hssl' : c.io.type ≠ .ssl := hssl
    simpa [hssl'] using ioWriteTcp_released

theorem ioFlushed_released (nwrite : ℤ) : (ioFlushed c nwrite).Released := by
  simp [ioFlushed, Conn.unlock]

/-- A close under the mutex never returns. -/
theorem ioClose_held_not_released {β : Type} (h : c.io.write_mutex = true) (f : Conn → Ran β) :
    ¬ ((ioClose c).andThen f).Released := by
  rw [ioClose_held h, Ran.andThen_none rfl]
  rintro ⟨hvalue, -⟩
  cases hvalue

theorem ioWriteCb_released_iff (hfree : c.io.write_mutex = false) :
    (ioWriteCb c r now).Released ↔
      (c.io.closed = false → bufferIsEmpty c.io.write_buf = false → int32 r.ret < 0 →
        r.again c.io.type = true) := by
  rw [ioWriteCb]
  dsimp only
  split_ifs with hclosed hheld hempty hneg hagain
  · simp [hclosed, hfree]
  · simp [hfree] at hheld
  · have hempty' : bufferIsEmpty c.io.write_buf = true := hempty
    simp [hempty', Conn.unlock]
  · have hagain' : r.again c.io.type = true := hagain
    simp [hagain', Conn.unlock]
  · have hagain' : ¬ r.again c.io.type = true := hagain
    have hempty' : bufferIsEmpty c.io.write_buf = false := (Bool.not_eq_true _).mp hempty
    rw [released_after]
    apply iff_of_false (ioClose_held_not_released rfl _)
    intro h
    exact hagain' (h ((Bool.not_eq_true _).mp hclosed) hempty' hneg)
  · rw [released_after]
    exact iff_of_true (ioFlushed_released _) fun _ _ h => absurd h hneg

theorem ioWriteCb_free (hfree : c.io.write_mutex = false)
    (hvalue : (ioWriteCb c r now).value.isSome = true) :
    (ioWriteCb c r now).conn.io.write_mutex = false := by
  rw [ioWriteCb] at hvalue ⊢
  dsimp only at hvalue ⊢
  split_ifs at hvalue ⊢
  · exact hfree
  · exact hfree
  · rfl
  · rfl
  · rw [ioClose_held rfl, Ran.andThen_none rfl] at hvalue
    cases hvalue
  · rfl

theorem call_released_iff {s : IoSystem} (call : IoCall) (hfree : s.conn.io.write_mutex = false) :
    (s.conn.call call).Released ↔ LockGuard s call := by
  cases call with
  | write payload r now =>
      have hunit : (s.conn.call (.write payload r now)).Released ↔
          (ioWrite s.conn payload.bytes r now).Released := by
        simp [Conn.call, Ran.andThen_unit, Ran.Released]
      rw [hunit]
      exact ioWrite_released_iff hfree
  | writeCb r now => exact ioWriteCb_released_iff hfree
  | close => exact iff_of_true (ioClose_closes hfree).released trivial

/-! ## Runs -/

/-- Every call so far has returned, with the mutex released. -/
structure LockFree (s : IoSystem) : Prop where
  returned : s.blocked = false
  free : s.conn.io.write_mutex = false

theorem lockFree_step_iff {s t : IoSystem} {call : IoCall} (h : LockFree s)
    (hstep : s.step call = some t) : LockFree t ↔ LockGuard s call := by
  rw [← call_released_iff call h.free]
  simp only [IoSystem.step, h.returned, Bool.false_eq_true, ite_false, Option.some.injEq] at hstep
  subst hstep
  constructor
  · rintro ⟨hreturned, hfree⟩
    exact ⟨by simpa using hreturned, hfree⟩
  · rintro ⟨hreturned, hfree⟩
    exact ⟨by simpa using hreturned, hfree⟩

/-- The calls on an io, of whatever type, keep the lock discipline exactly when each of
them meets its guard. -/
theorem lockFree_along_iff (c : Conn) (run : List IoCall) :
    Along IoSystem.step LockFree (.start c.unlock) run ↔
      Meets IoSystem.step LockGuard (.start c.unlock) run :=
  along_iff_meets (fun _ h => h) (fun _ _ _ h hg hstep => (lockFree_step_iff h hstep).mpr hg)
    (fun _ _ _ h hstep ht => (lockFree_step_iff h hstep).mp ht) run ⟨rfl, rfl⟩

/-- An SSL write that would block keeps the mutex. -/
theorem not_lockFree_ssl_would_block :
    ¬ Along IoSystem.step LockFree
      (.start ⟨{ getIo 5 (fun _ => 0) with type := .ssl },
        loopInit 0 0 (fun _ => Timer.zero) fun _ => none⟩)
      [.write ⟨[0x68], by decide⟩ ⟨-1, .eagain, .wantWrite⟩ 0] := by
  intro h
  exact absurd (h.exec rfl).free (by decide)

end LibConn
