import LibConn.Model.CustomEvents

/-! # EventLoop::postEvent

The queue of functors of `EventLoop.cpp` over the custom events of the loop. A `postEvent`
pushes its functor and calls `loop_post_event` in two steps, and any thread can take a step
in between. `pipe_read_cb` holds the mutex of the loop from its first slot to its last, but
not the mutex of the queue. -/

namespace LibConn.PostEvent

/-- `conn::Event`: the block that `postEvent` allocates, and whether `fn` is callable. -/
structure Event where
  addr : ℕ
  fn : Bool
  deriving DecidableEq, Repr

/-- `&ev->event`, whose `cb` is `onCustomEvent` -/
def Event.event (ev : Event) : CustomEvents.Event where
  addr := ev.addr
  cb := true

/-- `EventLoop` -/
structure EventLoop where
  m_eventQueue : List Event
  m_loop : CustomEvents.EventLoop

/-- What `front()` and `pop()` of `onCustomEvent` give; `none` where `front()` is called on an
empty queue. The event that fired is not looked at. -/
def EventLoop.popFront (loop : EventLoop) : Option (Event × EventLoop) :=
  match loop.m_eventQueue with
  | [] => none
  | ev :: rest => some (ev, { loop with m_eventQueue := rest })

/-- `EventLoop::wakeup`, where `write` returned `nwrite`. -/
def EventLoop.wakeup (loop : EventLoop) (nwrite : ℤ) : EventLoop :=
  if nwrite ≠ 1 then loop
  else { loop with m_loop := CustomEvents.eventLoopWakeup loop.m_loop }

/-- The event loop, its threads and the history: `posting` are the events that are pushed
while `loop_post_event` has not been called for them, `reading` the bytes that `io_read_cb`
has taken, `draining` the next slot and the number of bytes of `pipe_read_cb`, `ran` the
events whose `fn` was called, and `fault` whether `front()` met an empty queue. -/
structure System where
  loop : EventLoop
  posting : List Event
  reading : Option ℕ
  draining : Option (ℕ × ℕ)
  pushed : List Event
  ran : List Event
  fault : Bool

def System.start (malloced : ℕ → Option CustomEvents.Event) : System where
  loop := { m_eventQueue := [], m_loop := CustomEvents.eventLoopInit malloced }
  posting := []
  reading := none
  draining := none
  pushed := []
  ran := []
  fault := false

inductive Action where
  /-- `m_eventQueue.push(ev)` of a `postEvent` -/
  | push (ev : Event)
  /-- `loop_post_event` of a `postEvent`, and what `write` returned -/
  | post (ev : Event) (nwrite : ℤ)
  /-- `EventLoop::wakeup`, and what `write` returned -/
  | wakeup (nwrite : ℤ)
  /-- `io_read_cb` takes `k` bytes -/
  | read (k : ℕ)
  /-- `pipe_read_cb` takes the mutex -/
  | lock
  /-- `pipe_read_cb` runs the next slot, if it has a callback -/
  | slot
  /-- `pipe_read_cb` resets `custom_events_num` and gives the mutex back -/
  | unlock
  deriving DecidableEq, Repr

/-- `onCustomEvent` -/
def System.onCustomEvent (s : System) : System :=
  match s.loop.popFront with
  | none => { s with fault := true }
  | some (ev, loop) => { s with loop := loop, ran := if ev.fn then s.ran ++ [ev] else s.ran }

/-- One step; `none` where it is not available, also because the mutex is taken. -/
def System.step (s : System) (a : Action) : Option System :=
  if s.fault then none
  else
    match a with
    | .push ev =>
      some { s with
        loop := { s.loop with m_eventQueue := s.loop.m_eventQueue ++ [ev] }
        posting := s.posting ++ [ev]
        pushed := s.pushed ++ [ev] }
    | .post ev nwrite =>
      if ev ∈ s.posting ∧ s.draining = none then
        some { s with
          loop := { s.loop with
            m_loop := CustomEvents.loopPostEvent s.loop.m_loop ev.event nwrite }
          posting := s.posting.erase ev }
      else none
    | .wakeup nwrite => some { s with loop := s.loop.wakeup nwrite }
    | .read k =>
      if s.reading = none ∧ s.draining = none ∧ 1 ≤ k ∧ k ≤ s.loop.m_loop.pipe.length then
        some { s with
          loop := { s.loop with
            m_loop := { s.loop.m_loop with pipe := s.loop.m_loop.pipe.drop k } }
          reading := some k }
      else none
    | .lock =>
      if s.draining = none then
        s.reading.map fun nbytes => { s with reading := none, draining := some (0, nbytes) }
      else none
    | .slot =>
      s.draining.bind fun (i, nbytes) =>
        if i < nbytes then
          let s := { s with draining := some (i + 1, nbytes) }
          some (if s.loop.m_loop.runs i then s.onCustomEvent else s)
        else none
    | .unlock =>
      s.draining.bind fun (i, nbytes) =>
        if i = nbytes then
          some { s with
            loop := { s.loop with m_loop := CustomEvents.pipeReadCb s.loop.m_loop }
            draining := none }
        else none

end LibConn.PostEvent
