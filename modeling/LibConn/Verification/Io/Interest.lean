import LibConn.Model.Io
import LibConn.Shared.Run

/-! # What epoll watches

`io_add` registers a whole descriptor with the mask of the call, and `io_del` takes it away
whatever its mask was. So the kernel keeps up with `io->events` as long as no call adds to
a mask that is not empty, or takes from one more than it clears. -/

namespace LibConn

open LibConn.Run

/-- The masks that callers pass. -/
inductive EventMask where
  | read
  | write
  | rw
  deriving DecidableEq, Repr

def EventMask.bits : EventMask → Mask
  | .read => eventRead
  | .write => eventWrite
  | .rw => eventRw

inductive InterestAction where
  | add (cb : EventCb) (event : EventMask)
  | del (event : EventMask)
  deriving DecidableEq, Repr

def Conn.interestStep (c : Conn) : InterestAction → Option Conn
  | .add cb event => some (ioAdd c cb event.bits)
  | .del event => some (ioDel c event.bits)

/-- What the kernel has for the descriptor is what `io->events` says. -/
def Watched (c : Conn) : Prop :=
  c.loop.epoll c.io.fd = if c.io.events = 0 then none else some (epollEvents c.io.events)

/-- An added mask meets an empty one or is there in part already; a deleted mask is absent
or leaves nothing. -/
def InterestGuard (c : Conn) : InterestAction → Prop
  | .add _ event => c.io.events = 0 ∨ c.io.events &&& event.bits ≠ 0
  | .del event => c.io.events &&& event.bits = 0 ∨ c.io.events &&& ~~~event.bits = 0

/-- An io whose descriptor has just been opened. -/
def Conn.opened (c : Conn) (fd : ℕ) : Conn where
  io := { c.io with fd := fd, events := 0 }
  loop := { c.loop with epoll := Function.update c.loop.epoll fd none }

/-- `io->events` has no bits beyond the two. -/
def Narrow (events : Mask) : Prop :=
  events = 0 ∨ events = eventRead ∨ events = eventWrite ∨ events = eventRw

theorem Narrow.or {events : Mask} (h : Narrow events) (event : EventMask) :
    Narrow (events ||| event.bits) := by
  rcases h with rfl | rfl | rfl | rfl <;> cases event <;> unfold Narrow <;> decide

theorem Narrow.diff {events : Mask} (h : Narrow events) (event : EventMask) :
    Narrow (events &&& ~~~event.bits) := by
  rcases h with rfl | rfl | rfl | rfl <;> cases event <;> unfold Narrow <;> decide

/-- Bits that were not there are missing in the old mask. -/
theorem Narrow.events_ne {events : Mask} (h : Narrow events) (event : EventMask)
    (hnew : events &&& event.bits = 0) :
    epollEvents events ≠ epollEvents (events ||| event.bits) := by
  revert hnew
  rcases h with rfl | rfl | rfl | rfl <;> cases event <;> decide

theorem EventMask.or_ne_zero (events : Mask) (event : EventMask) : events ||| event.bits ≠ 0 := by
  intro h
  have hbits := (BitVec.or_eq_zero_iff.mp h).2
  revert hbits
  cases event <;> decide

/-! ## Single calls -/

section Calls

variable {c : Conn} {cb : EventCb} {event : EventMask}

theorem epollAdd_fresh (hfd : 0 ≤ c.io.fd) (h : c.loop.epoll c.io.fd = none) (mask : Mask) :
    epollAdd c.loop.epoll c.io.fd mask =
      some (Function.update c.loop.epoll c.io.fd (some (epollEvents mask))) := by
  simp [epollAdd, epollCtl, Int.not_lt.mpr hfd, h]

theorem epollAdd_known {old : Mask} (h : c.loop.epoll c.io.fd = some old) (mask : Mask) :
    epollAdd c.loop.epoll c.io.fd mask = none := by
  simp [epollAdd, epollCtl, h]

theorem epollDel_known (hfd : 0 ≤ c.io.fd) {old : Mask} (h : c.loop.epoll c.io.fd = some old)
    (mask : Mask) :
    epollDel c.loop.epoll c.io.fd mask = some (Function.update c.loop.epoll c.io.fd none) := by
  simp [epollDel, epollCtl, Int.not_lt.mpr hfd, h]

theorem watched_zero (h : c.io.events = 0) : Watched c ↔ c.loop.epoll c.io.fd = none := by
  rw [Watched, if_pos h]

theorem watched_ne_zero (h : c.io.events ≠ 0) :
    Watched c ↔ c.loop.epoll c.io.fd = some (epollEvents c.io.events) := by
  rw [Watched, if_neg h]

/-- `io_add` keeps the kernel in step exactly under its guard. -/
theorem watched_ioAdd_iff (h : Watched c) (hfd : 0 ≤ c.io.fd) (hn : Narrow c.io.events) :
    Watched (ioAdd c cb event.bits) ↔ InterestGuard c (.add cb event) := by
  by_cases hnew : c.io.events &&& event.bits = 0
  · rw [ioAdd, if_pos hnew, watched_ne_zero (EventMask.or_ne_zero c.io.events event)]
    by_cases h0 : c.io.events = 0
    · rw [epollAdd_fresh hfd ((watched_zero h0).mp h)]
      simp [InterestGuard, h0]
    · have hpresent := (watched_ne_zero h0).mp h
      rw [epollAdd_known hpresent]
      refine iff_of_false ?_ (by simp only [InterestGuard, h0, hnew]; decide)
      simpa [hpresent] using hn.events_ne event hnew
  · rw [ioAdd, if_neg hnew]
    exact iff_of_true h (Or.inr hnew)

/-- `io_del` keeps the kernel in step exactly under its guard. -/
theorem watched_ioDel_iff (h : Watched c) (hfd : 0 ≤ c.io.fd) :
    Watched (ioDel c event.bits) ↔ InterestGuard c (.del event) := by
  by_cases hold : c.io.events &&& event.bits = 0
  · rw [ioDel, if_neg (not_not.mpr hold)]
    exact iff_of_true h (Or.inl hold)
  · have h0 : c.io.events ≠ 0 := by
      intro h0
      exact hold (by rw [h0]; exact BitVec.zero_and)
    rw [ioDel, if_pos hold, epollDel_known hfd ((watched_ne_zero h0).mp h)]
    by_cases hrest : c.io.events &&& ~~~event.bits = 0
    · rw [watched_zero hrest]
      exact iff_of_true (by simp) (Or.inr hrest)
    · rw [watched_ne_zero hrest]
      exact iff_of_false (by simp) (by simp only [InterestGuard, hold, hrest]; decide)

end Calls

/-! ## Runs -/

/-- What runs of guarded calls keep. -/
structure Interested (c : Conn) : Prop where
  watched : Watched c
  fd_nonneg : 0 ≤ c.io.fd
  narrow : Narrow c.io.events

theorem Interested.step {c d : Conn} {a : InterestAction} (h : Interested c)
    (hg : InterestGuard c a) (hstep : c.interestStep a = some d) : Interested d := by
  cases a with
  | add cb event =>
      obtain rfl : ioAdd c cb event.bits = d := Option.some.inj hstep
      refine ⟨(watched_ioAdd_iff h.watched h.fd_nonneg h.narrow).mpr hg, ?_, ?_⟩ <;>
        rw [ioAdd] <;> split_ifs
      · exact h.fd_nonneg
      · exact h.fd_nonneg
      · exact h.narrow.or event
      · exact h.narrow
  | del event =>
      obtain rfl : ioDel c event.bits = d := Option.some.inj hstep
      refine ⟨(watched_ioDel_iff h.watched h.fd_nonneg).mpr hg, ?_, ?_⟩ <;>
        rw [ioDel] <;> split_ifs
      · exact h.fd_nonneg
      · exact h.fd_nonneg
      · exact h.narrow.diff event
      · exact h.narrow

theorem Interested.guard {c d : Conn} {a : InterestAction} (h : Interested c)
    (hstep : c.interestStep a = some d) (hd : Watched d) : InterestGuard c a := by
  cases a with
  | add cb event =>
      obtain rfl : ioAdd c cb event.bits = d := Option.some.inj hstep
      exact (watched_ioAdd_iff h.watched h.fd_nonneg h.narrow).mp hd
  | del event =>
      obtain rfl : ioDel c event.bits = d := Option.some.inj hstep
      exact (watched_ioDel_iff h.watched h.fd_nonneg).mp hd

theorem interested_opened (c : Conn) (fd : ℕ) : Interested (c.opened fd) := by
  refine ⟨(watched_zero rfl).mpr ?_, Int.natCast_nonneg fd, Or.inl rfl⟩
  simp [Conn.opened]

/-- The kernel watches what `io->events` says after each call exactly when every call of
the run meets its guard. -/
theorem watched_along_iff (c : Conn) (fd : ℕ) (run : List InterestAction) :
    Along Conn.interestStep Watched (c.opened fd) run ↔
      Meets Conn.interestStep InterestGuard (c.opened fd) run :=
  along_iff_meets (fun _ h => h.watched) (fun _ _ _ h hg hstep => h.step hg hstep)
    (fun _ _ _ h hstep hd => h.guard hstep hd) run (interested_opened c fd)

/-- Write interest on top of read interest does not reach the kernel. -/
theorem not_watched_read_write :
    ¬ ∀ (c : Conn) (fd : ℕ), Along Conn.interestStep Watched (c.opened fd)
      [.add .handleEvent .read, .add .ioWriteCb .write] := by
  intro h
  have hend := (h ⟨getIo 5 fun _ => 0, loopInit 0 0 (fun _ => Timer.zero) fun _ => none⟩ 5).exec rfl
  revert hend
  rw [Watched]
  decide

end LibConn
