import Mathlib.Data.List.Basic
import Mathlib.Data.Int.Notation
import Mathlib.Logic.Function.Basic

/-! # Custom events

`loop_post_event`, `event_loop_wakeup`, and the two halves of a drain: `io_read_cb` takes
bytes from the wake-up pipe, then `pipe_read_cb` takes the mutex and runs as many slots
as bytes were read. Between the two halves any thread can post. -/

namespace LibConn.CustomEvents

/-- What the loop looks at in an `event_t`: which event it is, and whether `cb` is set. -/
structure Event where
  addr : ℕ
  cb : Bool
  deriving DecidableEq, Repr

/-- The fields of `event_loop_st` behind the wake-up pipe. `custom_events i` is what a
read of that slot finds, behind the array as well. -/
structure EventLoop where
  pipe : List UInt8
  custom_events : ℕ → Option Event
  custom_events_num : ℕ
  max_custom_events_num : ℕ

/-- `event_loop_init_with_name`: the pipe is empty, and the slots hold what `malloc` left. -/
def eventLoopInit (malloced : ℕ → Option Event) : EventLoop where
  pipe := []
  custom_events := malloced
  custom_events_num := 0
  max_custom_events_num := 1024

/-- `loop->custom_events[i] = event`. A store behind the array is undefined in C; here
it does not reach the array. -/
def EventLoop.store (loop : EventLoop) (i : ℕ) (event : Event) : EventLoop :=
  if i < loop.max_custom_events_num then
    { loop with custom_events := Function.update loop.custom_events i (some event) }
  else loop

/-- `loop_post_event`, where `write` returned `nwrite`. -/
def loopPostEvent (loop : EventLoop) (event : Event) (nwrite : ℤ) : EventLoop :=
  if nwrite ≠ 1 then loop
  else
    { loop.store loop.custom_events_num event with
      pipe := loop.pipe ++ ['h'.toUInt8]
      custom_events_num := loop.custom_events_num + 1 }

/-- `event_loop_wakeup` -/
def eventLoopWakeup (loop : EventLoop) : EventLoop :=
  { loop with pipe := loop.pipe ++ ['c'.toUInt8] }

/-- The slot holds an event whose callback is set. -/
def EventLoop.runs (loop : EventLoop) (i : ℕ) : Bool :=
  (loop.custom_events i).any Event.cb

/-- The callbacks that `pipe_read_cb` runs, with the slots it finds them in. -/
def pipeReadCbCalls (loop : EventLoop) (nbytes : ℕ) : List (ℕ × Event) :=
  (List.range nbytes).filterMap fun i =>
    ((loop.custom_events i).filter Event.cb).map fun event => (i, event)

/-- What `pipe_read_cb` leaves. -/
def pipeReadCb (loop : EventLoop) : EventLoop :=
  { loop with custom_events_num := 0 }

/-! ## The system -/

/-- A callback that ran: its slot, whether that slot had been filled since
`custom_events_num` was last reset, and the event. -/
structure Call where
  slot : ℕ
  fresh : Bool
  event : Event
  deriving DecidableEq, Repr

/-- The loop, the thread that runs it, and the history. `reading` is the number of bytes
`io_read_cb` has taken from the pipe while `pipe_read_cb` has not run yet; `filled` are
the slots stored to since the last reset. -/
structure System where
  loop : EventLoop
  reading : Option ℕ
  posted : List Event
  filled : List ℕ
  calls : List Call

def System.start (malloced : ℕ → Option Event) : System where
  loop := eventLoopInit malloced
  reading := none
  posted := []
  filled := []
  calls := []

inductive Action where
  /-- `loop_post_event`, and what `write` returned -/
  | post (event : Event) (nwrite : ℤ)
  /-- `event_loop_wakeup` -/
  | wakeup
  /-- `io_read_cb` takes `k` bytes -/
  | read (k : ℕ)
  /-- `pipe_read_cb` with as many bytes as were read -/
  | pipeReadCb
  deriving DecidableEq, Repr

def System.step (s : System) : Action → Option System
  | .post event nwrite =>
      some { s with
        loop := loopPostEvent s.loop event nwrite
        posted := if nwrite ≠ 1 then s.posted else s.posted ++ [event]
        filled :=
          if nwrite = 1 ∧ s.loop.custom_events_num < s.loop.max_custom_events_num then
            s.loop.custom_events_num :: s.filled
          else s.filled }
  | .wakeup => some { s with loop := eventLoopWakeup s.loop }
  | .read k =>
      if s.reading = none ∧ 1 ≤ k ∧ k ≤ s.loop.pipe.length then
        some { s with
          loop := { s.loop with pipe := s.loop.pipe.drop k }
          reading := some k }
      else none
  | .pipeReadCb =>
      s.reading.map fun nbytes =>
        { s with
          loop := CustomEvents.pipeReadCb s.loop
          reading := none
          filled := []
          calls := s.calls ++ (pipeReadCbCalls s.loop nbytes).map fun call =>
            ⟨call.1, decide (call.1 ∈ s.filled), call.2⟩ }

/-! ## The slots that are used -/

/-- How many bytes the pipe holds that nobody has read. -/
def pipeSize : ℕ := 65536

/-- A `write` to the pipe returns `1` only while there is room in it. -/
def System.hasRoom (s : System) : Action → Bool
  | .post _ nwrite => nwrite ≠ 1 || s.loop.pipe.length < pipeSize
  | .wakeup => s.loop.pipe.length < pipeSize
  | _ => true

/-- The indices with which a step uses `custom_events`. -/
def System.indices (s : System) : Action → List ℕ
  | .post _ nwrite => if nwrite ≠ 1 then [] else [s.loop.custom_events_num]
  | .pipeReadCb => List.range (s.reading.getD 0)
  | _ => []

/-- The system with the indices used so far. -/
structure IndexSystem where
  sys : System
  used : List ℕ

def IndexSystem.start (malloced : ℕ → Option Event) : IndexSystem where
  sys := .start malloced
  used := []

def IndexSystem.step (s : IndexSystem) (a : Action) : Option IndexSystem :=
  if s.sys.hasRoom a then
    (s.sys.step a).map fun sys => { sys := sys, used := s.used ++ s.sys.indices a }
  else none

end LibConn.CustomEvents
