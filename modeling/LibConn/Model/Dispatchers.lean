import LibConn.Model.Epoll
import LibConn.Model.Heap

/-! # The dispatchers

The interest that `poll.c` and `select.c` keep themselves, next to `epoll.c`, and the calls
that `event_dispatcher` lets a loop make. `disp_data` is there: `init` has succeeded. -/

namespace LibConn

/-- The calls of `event_dispatcher` that change the interest; `none` stands for `-1`. -/
structure EventDispatcher (σ : Type) where
  add : σ → ℤ → Mask → Option σ
  update : σ → ℤ → Mask → Option σ
  del : σ → ℤ → Mask → Option σ

/-- `FD_SETSIZE` -/
def fdSetsize : ℕ := 1024

/-! ## poll -/

/-- `POLLIN` -/
def pollIn : BitVec 16 := 0x001

/-- `POLLOUT` -/
def pollOut : BitVec 16 := 0x004

/-- `struct pollfd` without `revents` -/
structure PollFd where
  fd : ℤ
  events : BitVec 16
  deriving DecidableEq, Repr

/-- `poll_dispatcher_st`; `fds` holds `fds[0 .. fds_count)`. -/
structure PollDispatcher where
  fds : List PollFd
  fds_capacity : ℕ
  deriving DecidableEq, Repr

/-- `poll_init` -/
def pollInit : PollDispatcher where
  fds := []
  fds_capacity := 1024

/-- `fds[i].events` for `event`. -/
def pollEvents (event : Mask) : BitVec 16 :=
  (if event &&& eventRead ≠ 0 then pollIn else 0) |||
    (if event &&& eventWrite ≠ 0 then pollOut else 0)

/-- The array of `poll_add` once it has room, where `realloc n` says whether `realloc` finds
memory for `n` entries. -/
def pollGrow (realloc : ℕ → Bool) (disp : PollDispatcher) : Option PollDispatcher :=
  if disp.fds.length ≥ disp.fds_capacity then
    let new_capacity := disp.fds_capacity * 2
    if realloc new_capacity then some { disp with fds_capacity := new_capacity } else none
  else some disp

/-- `poll_add` -/
def pollAdd (realloc : ℕ → Bool) (disp : PollDispatcher) (fd : ℤ) (event : Mask) :
    Option PollDispatcher :=
  if fd < 0 then none
  else
    (pollGrow realloc disp).map fun disp =>
      { disp with fds := disp.fds ++ [{ fd := fd, events := pollEvents event }] }

/-- The first entry for `fd`. -/
def pollFind (disp : PollDispatcher) (fd : ℤ) : Option ℕ :=
  disp.fds.findIdx? fun entry => entry.fd = fd

/-- `poll_update` -/
def pollUpdate (disp : PollDispatcher) (fd : ℤ) (event : Mask) : Option PollDispatcher :=
  if fd < 0 then none
  else
    (pollFind disp fd).map fun i =>
      { disp with fds := disp.fds.set i { fd := fd, events := pollEvents event } }

/-- `poll_del`: the last entry takes the place of the one that goes. -/
def pollDel (disp : PollDispatcher) (fd : ℤ) (_event : Mask) : Option PollDispatcher :=
  if fd < 0 then none
  else (pollFind disp fd).map fun i => { disp with fds := moveLast disp.fds i }

/-- `poll_dispatcher` -/
def pollDispatcher (realloc : ℕ → Bool) : EventDispatcher PollDispatcher where
  add := pollAdd realloc
  update := pollUpdate
  del := pollDel

/-! ## select -/

/-- `fd_set`, as `FD_SET`, `FD_CLR` and `FD_ISSET` show it for descriptors in range. -/
abbrev FdSet := ℤ → Bool

/-- `select_dispatcher_st` -/
structure SelectDispatcher where
  max_fd : ℤ
  read_fds : FdSet
  write_fds : FdSet

/-- `select_init` -/
def selectInit : SelectDispatcher where
  max_fd := -1
  read_fds := fun _ => false
  write_fds := fun _ => false

/-- `select_add` -/
def selectAdd (disp : SelectDispatcher) (fd : ℤ) (event : Mask) : Option SelectDispatcher :=
  if fd ≥ fdSetsize then none
  else
    let disp :=
      if event &&& eventRead ≠ 0 then
        if disp.read_fds fd then disp
        else { disp with read_fds := Function.update disp.read_fds fd true }
      else disp
    let disp :=
      if event &&& eventWrite ≠ 0 then
        if disp.write_fds fd then disp
        else { disp with write_fds := Function.update disp.write_fds fd true }
      else disp
    some (if fd > disp.max_fd then { disp with max_fd := fd } else disp)

/-- `select_update` -/
def selectUpdate (disp : SelectDispatcher) (fd : ℤ) (event : Mask) : Option SelectDispatcher :=
  selectAdd disp fd event

/-- `select_del`, which leaves `max_fd` where it is. -/
def selectDel (disp : SelectDispatcher) (fd : ℤ) (event : Mask) : Option SelectDispatcher :=
  let disp :=
    if event &&& eventRead ≠ 0 then
      { disp with read_fds := Function.update disp.read_fds fd false }
    else disp
  some
    (if event &&& eventWrite ≠ 0 then
      { disp with write_fds := Function.update disp.write_fds fd false }
    else disp)

/-- `select_dispatcher` -/
def selectDispatcher : EventDispatcher SelectDispatcher where
  add := selectAdd
  update := selectUpdate
  del := selectDel

/-! ## epoll -/

/-- `epoll_init` -/
def epollInit : EpollSet := fun _ => none

/-- `epoll_dispatcher` -/
def epollDispatcher : EventDispatcher EpollSet where
  add := epollAdd
  update := epollUpdate
  del := epollDel

/-! ## Sequences of calls -/

inductive DispatcherOp where
  | add
  | update
  | del
  deriving DecidableEq, Repr

structure DispatcherCall where
  op : DispatcherOp
  fd : ℤ
  event : Mask
  deriving DecidableEq, Repr

/-- A call that fails changes nothing. -/
def EventDispatcher.call {σ : Type} (d : EventDispatcher σ) (disp : σ) (c : DispatcherCall) : σ :=
  match c.op with
  | .add => (d.add disp c.fd c.event).getD disp
  | .update => (d.update disp c.fd c.event).getD disp
  | .del => (d.del disp c.fd c.event).getD disp

end LibConn
