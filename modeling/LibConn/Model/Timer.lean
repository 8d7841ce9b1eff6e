import LibConn.Model.Epoll
import LibConn.Model.Heap
import Mathlib.Algebra.Group.Int.Defs
import Mathlib.Algebra.Group.Nat.Defs

/-! # The timers of a loop

`add_timer`, `reset_timer`, `del_timer` and one turn of `process_timer` of
`event_loop.c`, over the timers in memory. A timer is named by its address. -/

namespace LibConn

/-- The timer callbacks of `io.c`, and those of the user. -/
inductive TimerCb where
  | readTimeout
  | writerTimeout
  | closeTimeout
  | connectTimeout
  | user (k : ℕ)
  deriving DecidableEq, Repr

/-- `event_timer_st`; `allocated` says whether the address is a live block of `malloc`. -/
structure Timer where
  allocated : Bool
  cb : Option TimerCb
  next_event : Option ℕ
  pending : Bool
  destory : Bool
  active : Bool
  repeats : ℕ
  next_timeout : ℕ
  timeout : ℕ
  /-- the io it belongs to -/
  privdata : Option ℕ
  deriving DecidableEq, Repr

/-- What `memset` makes of a new timer. -/
def Timer.zero : Timer where
  allocated := true
  cb := none
  next_event := none
  pending := false
  destory := false
  active := false
  repeats := 0
  next_timeout := 0
  timeout := 0
  privdata := none

/-- The fields of `event_loop_st` that timers and descriptors use. -/
structure Loop where
  cur_ms : ℕ
  timers : Heap ℕ
  timers_num : ℕ
  timer : ℕ → Timer
  pending : Option ℕ
  epoll : EpollSet

/-- `event_loop_init_with_name`, which leaves in `timers_num` what `malloc` put there. -/
def loopInit (cur_ms timers_num : ℕ) (timer : ℕ → Timer) (epoll : EpollSet) : Loop where
  cur_ms := cur_ms
  timers := createHeap 1000
  timers_num := timers_num
  timer := timer
  pending := none
  epoll := epoll

/-- A value as `uint32_t`. -/
def u32 (n : ℤ) : ℕ :=
  (n % 2 ^ 32).toNat

/-- A value as `uint64_t`. -/
def u64 (n : ℤ) : ℕ :=
  (n % 2 ^ 64).toNat

/-- `timers_compare` -/
def timersCompare (loop : Loop) (lhs rhs : ℕ) : Bool :=
  decide ((loop.timer lhs).next_timeout < (loop.timer rhs).next_timeout)

def Loop.setTimer (loop : Loop) (t : ℕ) (timer : Timer) : Loop :=
  { loop with timer := Function.update loop.timer t timer }

def Loop.insertTimer (loop : Loop) (t : ℕ) : Loop :=
  { loop with timers := heapInsert (timersCompare loop) loop.timers t }

def Loop.popTimer (loop : Loop) : Loop :=
  { loop with timers := heapPop (timersCompare loop) loop.timers }

def Loop.removeTimer (loop : Loop) (t : ℕ) : Loop :=
  { loop with timers := heapRemove (timersCompare loop) loop.timers t }

/-- `update_loop_timer`, where `get_curtime_ms` returns `now`. -/
def updateLoopTimer (loop : Loop) (now : ℕ) : Loop :=
  { loop with cur_ms := now }

/-! ## Events -/

/-- `event_pending` -/
def eventPending (loop : Loop) (t : ℕ) : Loop :=
  if (loop.timer t).pending then loop
  else
    { loop.setTimer t { loop.timer t with pending := true, next_event := loop.pending } with
      pending := some t }

/-- `event_del` -/
def eventDel (loop : Loop) (t : ℕ) : Loop :=
  if (loop.timer t).destory then
    loop.setTimer t { loop.timer t with destory := false, allocated := false }
  else loop

/-- `event_reset` -/
def eventReset (loop : Loop) (t : ℕ) : Loop :=
  loop.setTimer t { loop.timer t with destory := false, active := true, pending := false }

/-! ## Arming and cancelling -/

/-- `add_timer`: the timer it returns, and the loop. `mem` is what `malloc` returns. -/
def addTimer (loop : Loop) (timeout : ℤ) (cb : Option TimerCb) (repeats now : ℕ)
    (mem : Option ℕ) : Option ℕ × Loop :=
  if timeout = 0 then (none, loop)
  else
    match mem with
    | none => (none, loop)
    | some t =>
      let loop := updateLoopTimer loop now
      let loop := loop.setTimer t
        { Timer.zero with
          timeout := u64 timeout
          next_timeout := u64 (loop.cur_ms + timeout)
          cb := cb
          repeats := if repeats = 0 then 1 else repeats }
      let loop := loop.insertTimer t
      (some t, { loop with timers_num := u32 (loop.timers_num + 1) })

/-- `reset_timer`; `none` where the timer is gone or has no io to read `loop` from. -/
def resetTimer (loop : Loop) (t : ℕ) (timeout : ℤ) : Option Loop :=
  if (loop.timer t).allocated = true ∧ (loop.timer t).privdata ≠ none then
    let loop :=
      if (loop.timer t).destory = false then loop.popTimer
      else { loop with timers_num := u32 (loop.timers_num + 1) }
    let loop := loop.setTimer t { loop.timer t with next_timeout := u64 (loop.cur_ms + timeout) }
    let loop := loop.insertTimer t
    some (eventReset loop t)
  else none

/-- `del_timer` -/
def delTimer (loop : Loop) (_timer : ℕ) : Loop :=
  let loop := { loop with timers_num := u32 (loop.timers_num - 1) }
  loop.popTimer

/-! ## Expiry -/

/-- `UINT32_MAX` -/
def uint32Max : ℕ := 2 ^ 32 - 1

/-- How one turn of `process_timer` ends. -/
inductive TimerTurn where
  /-- `array[0]` is `NULL`: the loop does not stop when the heap runs empty -/
  | fault
  /-- the top timer is not due -/
  | stop
  /-- the timer has fired for the last time, and its callback is pending -/
  | last (t : ℕ) (loop : Loop)
  /-- the timer is armed again, and its callback runs now -/
  | again (t : ℕ) (loop : Loop)

/-- `if (timer->repeat != UINT32_MAX) timer->repeat--;` -/
def countDown (loop : Loop) (t : ℕ) : Loop :=
  if (loop.timer t).repeats ≠ uint32Max then
    loop.setTimer t { loop.timer t with repeats := u32 ((loop.timer t).repeats - 1) }
  else loop

/-- One turn of the loop of `process_timer`. -/
def processTimerTurn (loop : Loop) : TimerTurn :=
  match heapTop loop.timers with
  | none => .fault
  | some t =>
    if (loop.timer t).next_timeout > loop.cur_ms then .stop
    else
      let loop := countDown loop t
      if (loop.timer t).repeats = 0 then
        let loop := delTimer loop t
        let loop := loop.setTimer t { loop.timer t with destory := true }
        .last t (eventPending loop t)
      else
        let loop := loop.setTimer t
          { loop.timer t with next_timeout := u64 (loop.cur_ms + (loop.timer t).timeout) }
        let loop := loop.popTimer
        .again t (loop.insertTimer t)

/-- What `process_pending_event` does with an event once its callback has returned. -/
def pendingDone (loop : Loop) (t : ℕ) : Loop :=
  let loop := loop.setTimer t { loop.timer t with pending := false }
  if (loop.timer t).destory then eventDel loop t else loop

end LibConn
