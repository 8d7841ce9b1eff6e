import LibConn.Model.Reading
import LibConn.Verification.Io.Stream

/-! # What a reader is shown

`io_read_cb` shows `read_cb` the bytes of its own read only and forgets the rest of the
buffer behind it, and a read that fills the buffer ends the connection. -/

namespace LibConn

open LibConn.Memory
open LibConn.Run

/-- Where `read_cb` was set when bytes last arrived, it has been shown all bytes so far. -/
def ReadSystem.AllShown (s : ReadSystem) : Prop :=
  s.heard = true → s.delivered = s.received

/-- Bytes for which `read_cb` is set find the buffer empty, and do not fill it. -/
def ReadSystem.Alone (s : ReadSystem) : ReadAction → Prop
  | .app _ => True
  | .read r _ => r.bytes ≠ [] → s.io.read_cb = true →
      ∀ buf, s.io.read_buf = some buf → buf.tail = 0 ∧ r.bytes.length ≠ buf.len

/-! ## Calls -/

section Calls

variable {io io' : ReadingIo} {r : ReadResult} {does : List ReaderCall} {shown : List UInt8}

theorem ioClose_returned {c : Conn} (h : (ioClose c).value.isSome = true) :
    (ioClose c).conn.io.closed = true := by
  cases hheld : c.io.write_mutex with
  | true =>
      rw [ioClose_held hheld] at h
      cases h
  | false => exact (ioClose_closes hheld).closed

/-- Nothing is in the read buffer that was not there before. -/
def ReadingIo.Drops (io io' : ReadingIo) : Prop :=
  ∀ buf, io'.read_buf = some buf → io.read_buf = some buf

theorem ReadingIo.ran_drops {α : Type} {ran : Ran α} (h : io.ran ran = some io') :
    io.Drops io' := by
  obtain ⟨_, -, rfl⟩ := Option.map_eq_some_iff.mp h
  intro buf hbuf
  dsimp only at hbuf
  split_ifs at hbuf
  exact hbuf

theorem ReadingIo.app_drops {call : ReaderCall} (h : io.app call = some io') :
    io.Drops io' := by
  cases call with
  | ioSetReadcb set =>
      obtain rfl := Option.some.inj h
      exact fun _ hbuf => hbuf
  | ioReadEnable =>
      obtain rfl := Option.some.inj h
      exact fun _ hbuf => hbuf
  | call call => exact ran_drops h

theorem ReadingIo.foldlM_drops (h : does.foldlM app io = some io') : io.Drops io' := by
  induction does generalizing io with
  | nil =>
      obtain rfl := Option.some.inj h
      exact fun _ hbuf => hbuf
  | cons call does ih =>
      obtain ⟨next, hnext, hrest⟩ := Option.bind_eq_some_iff.mp h
      exact fun buf hbuf => app_drops hnext buf (ih hrest buf hbuf)

theorem ReadingIo.readCb_tail (h : io.readCb does = some io') {buf : Buffer}
    (hbuf : io'.read_buf = some buf) :
    buf.tail = 0 ∧ ∃ old, io.read_buf = some old ∧ buf.len = old.len := by
  obtain ⟨last, hlast, rfl⟩ := Option.map_eq_some_iff.mp h
  obtain ⟨old, hold, rfl⟩ := Option.map_eq_some_iff.mp hbuf
  exact ⟨rfl, old, foldlM_drops hlast old hold, rfl⟩

theorem ReadingIo.close_ends (h : io.close = some (io', shown)) :
    shown = [] ∧ io'.read_buf = none := by
  obtain ⟨last, hlast, heq⟩ := Option.map_eq_some_iff.mp h
  obtain ⟨rfl, rfl⟩ := Prod.mk.inj heq
  obtain ⟨_, hvalue, rfl⟩ := Option.map_eq_some_iff.mp hlast
  refine ⟨rfl, if_pos (ioClose_returned ?_)⟩
  rw [hvalue]
  rfl

/-- The bytes of one read: they end the connection, are kept for later, or are shown. -/
inductive ReadSpec (io : ReadingIo) (buf : Buffer) (bytes : List UInt8) (io' : ReadingIo) :
    List UInt8 → Prop where
  | nothing (hnone : bytes = []) (hdrops : io.Drops io') : ReadSpec io buf bytes io' []
  | full (hbytes : bytes ≠ []) (hfull : buf.tail + bytes.length = buf.len)
      (hends : io'.read_buf = none) : ReadSpec io buf bytes io' []
  | kept (hbytes : bytes ≠ []) (hroom : buf.tail + bytes.length < buf.len)
      (hsilent : io.read_cb = false)
      (hbuf : io'.read_buf = some (ReadingIo.stored buf bytes)) : ReadSpec io buf bytes io' []
  | shown (hbytes : bytes ≠ []) (hroom : buf.tail + bytes.length < buf.len)
      (hset : io.read_cb = true)
      (hbuf : ∀ new, io'.read_buf = some new → new.tail = 0 ∧ new.len = buf.len) :
      ReadSpec io buf bytes io' bytes

theorem slice_stored (buf : Buffer) (bytes : List UInt8) :
    slice (ReadingIo.stored buf bytes).base buf.tail (ReadingIo.stored buf bytes).tail = bytes := by
  have h : slice (copy buf.base buf.tail bytes) buf.tail (buf.tail + bytes.length) =
      slice buf.base buf.tail buf.tail ++ bytes := slice_copy bytes (Nat.le_refl _)
  rwa [slice_self] at h

theorem ReadingIo.ioReadCb_spec {buf : Buffer} (hbuf : io.read_buf = some buf)
    (hlen : buf.len = maxIoBufSize) (htail : buf.tail < buf.len)
    (hroom : r.bytes.length ≤ buf.len - buf.tail) (h : io.ioReadCb r does = some (io', shown)) :
    ReadSpec io buf r.bytes io' shown := by
  have hmax : maxIoBufSize = 2097152 := rfl
  rw [ioReadCb] at h
  simp only [hbuf] at h
  cases r with
  | error errno =>
      have hne : u64 ((ReadResult.error errno).nread + buf.tail) ≠ buf.len := by
        simp only [ReadResult.nread, u64]
        omega
      rw [if_neg hne] at h
      dsimp only at h
      split_ifs at h with hagain
      · obtain ⟨rfl, rfl⟩ := Prod.mk.inj (Option.some.inj h)
        exact .nothing rfl fun _ h => hbuf.trans h
      · obtain ⟨rfl, hnone⟩ := close_ends h
        exact .nothing rfl fun _ h => by simp [hnone] at h
  | data bytes =>
      dsimp only [ReadResult.bytes] at hroom ⊢
      have hsum : u64 ((ReadResult.data bytes).nread + buf.tail) = buf.tail + bytes.length := by
        simp only [ReadResult.nread, u64]
        omega
      rw [hsum] at h
      by_cases hfull : buf.tail + bytes.length = buf.len
      · rw [if_pos hfull] at h
        obtain ⟨rfl, hnone⟩ := close_ends h
        refine .full (fun hzero => ?_) hfull hnone
        rw [hzero, List.length_nil] at hfull
        omega
      rw [if_neg hfull] at h
      have hless : buf.tail + bytes.length < buf.len := by omega
      cases bytes with
      | nil =>
          obtain ⟨rfl, hnone⟩ := close_ends h
          exact .nothing rfl fun _ h => by simp [hnone] at h
      | cons byte bytes =>
          dsimp only at h
          rw [slice_stored] at h
          cases hset : io.read_cb with
          | false =>
              simp only [hset, Bool.false_eq_true, if_false] at h
              obtain ⟨rfl, rfl⟩ := Prod.mk.inj (Option.some.inj h)
              exact .kept (List.cons_ne_nil byte bytes) hless hset rfl
          | true =>
              simp only [hset, if_true] at h
              obtain ⟨last, hlast, heq⟩ := Option.map_eq_some_iff.mp h
              obtain ⟨rfl, rfl⟩ := Prod.mk.inj heq
              refine .shown (List.cons_ne_nil byte bytes) hless hset fun new hnew => ?_
              obtain ⟨htail, old, hold, hlen⟩ := readCb_tail hlast hnew
              obtain rfl := Option.some.inj hold
              exact ⟨htail, hlen⟩

end Calls

/-! ## Runs -/

/-- What is received and not shown yet is in the buffer. -/
structure ReadSystem.Keeping (s : ReadSystem) : Prop where
  shown : s.AllShown
  room : ∀ buf, s.io.read_buf = some buf → buf.len = maxIoBufSize ∧ buf.tail < buf.len
  kept : ∀ buf, s.io.read_buf = some buf →
    s.received = s.delivered ++ slice buf.base 0 buf.tail

variable {s t : ReadSystem}

theorem ReadSystem.Keeping.app (h : s.Keeping) {call : ReaderCall}
    (hstep : s.step (.app call) = some t) : t.Keeping := by
  obtain ⟨io, hio, rfl⟩ := Option.map_eq_some_iff.mp hstep
  have hdrops := ReadingIo.app_drops hio
  exact ⟨h.shown, fun buf hbuf => h.room buf (hdrops buf hbuf),
    fun buf hbuf => h.kept buf (hdrops buf hbuf)⟩

theorem ReadSystem.Keeping.read_spec (h : s.Keeping) {r : ReadResult} {does : List ReaderCall}
    (hstep : s.step (.read r does) = some t) :
    ∃ buf shown, s.io.read_buf = some buf ∧ ReadSpec s.io buf r.bytes t.io shown ∧
      t.received = s.received ++ r.bytes ∧ t.delivered = s.delivered ++ shown ∧
      t.heard = if r.bytes = [] then s.heard else s.io.read_cb := by
  simp only [ReadSystem.step, Option.ite_none_left_eq_some] at hstep
  obtain ⟨-, hoffered, hstep⟩ := hstep
  obtain ⟨⟨io, shown⟩, hio, rfl⟩ := Option.map_eq_some_iff.mp hstep
  cases hbuf : s.io.read_buf with
  | none =>
      rw [ReadingIo.ioReadCb] at hio
      simp only [hbuf] at hio
      cases hio
  | some buf =>
      have hroom : r.bytes.length ≤ buf.len - buf.tail := by simpa [hbuf] using hoffered
      obtain ⟨hlen, htail⟩ := h.room buf hbuf
      exact ⟨buf, shown, rfl, ReadingIo.ioReadCb_spec hbuf hlen htail hroom hio, rfl, rfl, rfl⟩

theorem ReadSystem.Keeping.alone (h : s.Keeping) {a : ReadAction} (hstep : s.step a = some t)
    (ht : t.AllShown) : s.Alone a := by
  cases a with
  | app call => trivial
  | read r does =>
      intro hbytes hset
      obtain ⟨buf, shown, hbuf, hspec, hreceived, hdelivered, hheard⟩ := h.read_spec hstep
      have hall : s.delivered ++ shown = s.received ++ r.bytes := by
        rw [← hreceived, ← hdelivered]
        exact ht (by rw [hheard, if_neg hbytes, hset])
      rw [h.kept buf hbuf, List.append_assoc, List.append_right_inj] at hall
      intro buf' hbuf'
      obtain rfl := Option.some.inj (hbuf.symm.trans hbuf')
      have hlength := congrArg List.length hall
      rw [List.length_append, slice_length] at hlength
      cases hspec with
      | nothing hnone _ => exact absurd hnone hbytes
      | full => exact absurd (List.append_eq_nil_iff.mp hall.symm).2 hbytes
      | kept _ _ hsilent _ => exact absurd (hset.symm.trans hsilent) (by simp)
      | shown _ hroom _ _ => exact ⟨by omega, by omega⟩

theorem ReadSystem.Keeping.step (h : s.Keeping) {a : ReadAction} (hg : s.Alone a)
    (hstep : s.step a = some t) : t.Keeping := by
  cases a with
  | app call => exact h.app hstep
  | read r does =>
      obtain ⟨buf, shown, hbuf, hspec, hreceived, hdelivered, hheard⟩ := h.read_spec hstep
      obtain ⟨hlen, htail⟩ := h.room buf hbuf
      have hkept := h.kept buf hbuf
      cases hspec with
      | nothing hnone hdrops =>
          rw [hnone, List.append_nil] at hreceived
          rw [List.append_nil] at hdelivered
          rw [if_pos hnone] at hheard
          refine ⟨?_, fun new hnew => h.room new (hdrops new hnew), fun new hnew => ?_⟩
          · rw [AllShown, hheard, hdelivered, hreceived]
            exact h.shown
          · rw [hreceived, hdelivered]
            exact h.kept new (hdrops new hnew)
      | full hbytes hfull hends =>
          have hnone : ∀ new, t.io.read_buf ≠ some new := by simp [hends]
          refine ⟨fun hset => ?_, fun new hnew => absurd hnew (hnone new),
            fun new hnew => absurd hnew (hnone new)⟩
          rw [hheard, if_neg hbytes] at hset
          obtain ⟨hzero, hne⟩ := hg hbytes hset buf hbuf
          omega
      | kept hbytes hroom hsilent hstored =>
          rw [List.append_nil] at hdelivered
          refine ⟨fun hset => ?_, fun new hnew => ?_, fun new hnew => ?_⟩
          · rw [hheard, if_neg hbytes, hsilent] at hset
            cases hset
          · obtain rfl := Option.some.inj (hstored.symm.trans hnew)
            exact ⟨hlen, hroom⟩
          · obtain rfl := Option.some.inj (hstored.symm.trans hnew)
            rw [hreceived, hdelivered, hkept, List.append_assoc]
            exact congrArg _ (slice_copy r.bytes (Nat.zero_le buf.tail)).symm
      | shown hbytes hroom hset hempty =>
          have hall : t.delivered = t.received := by
            obtain ⟨hzero, -⟩ := hg hbytes hset buf hbuf
            rw [hdelivered, hreceived, hkept, hzero, slice_self, List.append_nil]
          refine ⟨fun _ => hall, fun new hnew => ?_, fun new hnew => ?_⟩
          · obtain ⟨hzero, hsame⟩ := hempty new hnew
            omega
          · rw [(hempty new hnew).1, slice_self, List.append_nil, hall]

theorem ReadSystem.keeping_start (fd : ℤ) (malloced : ℕ → UInt8) (loop : Loop) :
    (start (.start fd malloced loop)).Keeping := by
  refine ⟨fun h => (by cases h), fun buf hbuf => ?_, fun buf hbuf => ?_⟩
  · obtain rfl := Option.some.inj hbuf
    exact ⟨rfl, show 0 < maxIoBufSize by decide⟩
  · obtain rfl := Option.some.inj hbuf
    exact slice_self.symm

/-- The bytes that arrive reach `read_cb`, once and in order, exactly as long as none of them
have to wait for it and no read fills the buffer. -/
theorem allShown_iff_alone (fd : ℤ) (malloced : ℕ → UInt8) (loop : Loop)
    (run : List ReadAction) :
    Along ReadSystem.step ReadSystem.AllShown (.start (.start fd malloced loop)) run ↔
      Meets ReadSystem.step ReadSystem.Alone (.start (.start fd malloced loop)) run :=
  along_iff_meets (fun _ h => h.shown) (fun _ _ _ h hg hstep => h.step hg hstep)
    (fun _ _ _ h hstep ht => h.alone hstep ht) run (ReadSystem.keeping_start fd malloced loop)

/-- A byte arrives before `read_cb` is set, the next one after it. -/
theorem not_allShown_early :
    ¬ Along ReadSystem.step ReadSystem.AllShown
      (.start (.start 5 (fun _ => 0) (loopInit 0 0 (fun _ => Timer.zero) fun _ => none)))
      [.app .ioReadEnable, .read (.data [1]) [], .app (.ioSetReadcb true),
        .read (.data [2]) []] := by
  intro h
  have hlast := h.exec (Option.some_get (by decide +kernel)).symm (by decide +kernel)
  revert hlast
  decide +kernel

end LibConn
