import Mathlib.Data.Int.Notation
import Mathlib.Logic.Function.Basic

/-! # The epoll dispatcher

`epoll.c` over the interest list that the kernel keeps for one epoll instance. -/

namespace LibConn

/-- An `int` or `uint32_t` of flags. -/
abbrev Mask := BitVec 32

/-- `EVENT_READ` -/
def eventRead : Mask := 0x01

/-- `EVENT_WRITE` -/
def eventWrite : Mask := 0x02

/-- `EVENT_RW` -/
def eventRw : Mask := 0x03

/-- `EPOLLIN` -/
def epollIn : Mask := 0x001

/-- `EPOLLOUT` -/
def epollOut : Mask := 0x004

inductive EpollOp where
  | add
  | mod
  | del
  deriving DecidableEq, Repr

/-- The descriptors that are registered, each with its interest mask. -/
abbrev EpollSet := ℤ → Option Mask

/-- `epoll_ctl` as the kernel defines it; `none` where it fails, which changes nothing. -/
def epollCtl (set : EpollSet) (op : EpollOp) (fd : ℤ) (events : Mask) : Option EpollSet :=
  if fd < 0 then none
  else
    match op, set fd with
    | .add, none => some (Function.update set fd (some events))
    | .mod, some _ => some (Function.update set fd (some events))
    | .del, some _ => some (Function.update set fd none)
    | _, _ => none

/-- `ev.events` for `event`. -/
def epollEvents (event : Mask) : Mask :=
  (if event &&& eventRead ≠ 0 then epollIn else 0) |||
    (if event &&& eventWrite ≠ 0 then epollOut else 0)

/-- `epoll_add`; `none` stands for the result `-1` here and below. -/
def epollAdd (set : EpollSet) (fd : ℤ) (event : Mask) : Option EpollSet :=
  epollCtl set .add fd (epollEvents event)

/-- `epoll_update` -/
def epollUpdate (set : EpollSet) (fd : ℤ) (event : Mask) : Option EpollSet :=
  epollCtl set .mod fd (epollEvents event)

/-- `epoll_del` -/
def epollDel (set : EpollSet) (fd : ℤ) (_event : Mask) : Option EpollSet :=
  epollCtl set .del fd 0

end LibConn
