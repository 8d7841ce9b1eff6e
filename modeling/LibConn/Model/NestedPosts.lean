import LibConn.Model.PostEvent
import Mathlib.Data.List.Infix

/-! # Posts from posted callbacks

The thread of a loop with its two mutexes: `loop->mutex`, which `loop_post_event` takes and
`pipe_read_cb` holds while it runs callbacks, and `m_mutex` of the queue of functors. Both are
plain mutexes: a thread that locks one it holds never returns, which is `none` here.
`event_loop_init` does not initialise `loop->mutex`; it is taken to start unlocked. -/

namespace LibConn.NestedPosts

/-- The loop, the mutexes that its thread holds, the blocks that `postEvent` allocated (their
`cb` is `onCustomEvent`), and the history: the events whose byte was written, those of them
that a callback posted, each with the number of callbacks called until then, and the events
whose callback was called. -/
structure Thread where
  loop : PostEvent.EventLoop
  mutex : Bool
  m_mutex : Bool
  functors : List ℕ
  posted : List CustomEvents.Event
  nested : List (CustomEvents.Event × ℕ)
  ran : List CustomEvents.Event

def Thread.start (malloced : ℕ → Option CustomEvents.Event) : Thread where
  loop := { m_eventQueue := [], m_loop := CustomEvents.eventLoopInit malloced }
  mutex := false
  m_mutex := false
  functors := []
  posted := []
  nested := []
  ran := []

/-- `pthread_mutex_lock(&loop->mutex)` -/
def Thread.lock (t : Thread) : Option Thread :=
  if t.mutex then none else some { t with mutex := true }

/-- `pthread_mutex_unlock(&loop->mutex)` -/
def Thread.unlock (t : Thread) : Thread :=
  { t with mutex := false }

/-- `m_mutex.lock()` -/
def Thread.lockQueue (t : Thread) : Option Thread :=
  if t.m_mutex then none else some { t with m_mutex := true }

/-- `m_mutex.unlock()` -/
def Thread.unlockQueue (t : Thread) : Thread :=
  { t with m_mutex := false }

/-! ## Posting -/

/-- `loop_post_event`, where `write` returned `nwrite`. -/
def Thread.loopPostEvent (t : Thread) (event : Option CustomEvents.Event) (nwrite : ℤ) :
    Option Thread :=
  match event with
  | none => some t
  | some event =>
    t.lock.map fun t =>
      Thread.unlock { t with
        loop := { t.loop with
          m_loop := CustomEvents.loopPostEvent t.loop.m_loop event nwrite }
        posted := if nwrite ≠ 1 then t.posted else t.posted ++ [event] }

/-- `EventLoop::postEvent`, which allocated `ev`. -/
def Thread.postEvent (t : Thread) (ev : PostEvent.Event) (nwrite : ℤ) : Option Thread :=
  t.lockQueue.bind fun t =>
    let t := Thread.unlockQueue { t with
      loop := { t.loop with m_eventQueue := t.loop.m_eventQueue ++ [ev] }
      functors := ev.addr :: t.functors }
    t.loopPostEvent (some ev.event) nwrite

/-- What `HttpClient::parseUrl` returns: it looks for `"://"` in the C string. -/
def parseUrl (url : List UInt8) : ℤ :=
  if [0x3A, 0x2F, 0x2F] <:+: url.takeWhile (· ≠ 0) then 0 else -1

/-- `HttpClient::async_send` on the loop, for a request with this `url`; the functor that it
posts is the `doTask` of the block at `addr`. -/
def Thread.asyncSend (t : Thread) (req : Option (List UInt8)) (addr : ℕ) (nwrite : ℤ) :
    Option Thread :=
  match req with
  | none => some t
  | some url =>
    if url = [] then some t
    else if parseUrl url ≠ 0 then some t
    else t.postEvent ⟨addr, true⟩ nwrite

/-- A call of one of the three. -/
inductive Call where
  | loopPostEvent (event : Option CustomEvents.Event) (nwrite : ℤ)
  | postEvent (ev : PostEvent.Event) (nwrite : ℤ)
  | asyncSend (req : Option (List UInt8)) (addr : ℕ) (nwrite : ℤ)

def Thread.call (t : Thread) : Call → Option Thread
  | .loopPostEvent event nwrite => t.loopPostEvent event nwrite
  | .postEvent ev nwrite => t.postEvent ev nwrite
  | .asyncSend req addr nwrite => t.asyncSend req addr nwrite

/-! ## Draining -/

/-- The code of the user in a callback makes `calls`. -/
def Thread.userCode (t : Thread) (calls : List Call) : Option Thread :=
  (calls.foldlM Thread.call t).map fun t' =>
    { t' with
      nested := t'.nested ++ (t'.posted.drop t.posted.length).map fun event =>
        (event, t.ran.length) }

/-- `onCustomEvent`; `none` also where `front()` is called on an empty queue. -/
def Thread.onCustomEvent (t : Thread) (calls : List Call) : Option Thread :=
  t.lockQueue.bind fun t =>
    t.loop.popFront.bind fun (ev, loop) =>
      let t := Thread.unlockQueue { t with loop := loop }
      if ev.fn then t.userCode calls else some t

/-- The body of the loop of `pipe_read_cb`, where the code behind the slot makes `calls`. -/
def Thread.slot (t : Thread) (i : ℕ) (calls : List Call) : Option Thread :=
  match t.loop.m_loop.custom_events i with
  | none => some t
  | some event =>
    if event.cb then
      let t := { t with ran := t.ran ++ [event] }
      if event.addr ∈ t.functors then t.onCustomEvent calls else t.userCode calls
    else some t

/-- The loop of `pipe_read_cb`; `does i` are the calls that the code behind slot `i` makes. -/
def Thread.slots (t : Thread) (does : ℕ → List Call) (nbytes : ℕ) : Option Thread :=
  (List.range nbytes).foldlM (fun t i => t.slot i (does i)) t

/-- `pipe_read_cb` -/
def Thread.pipeReadCb (t : Thread) (does : ℕ → List Call) (nbytes : ℕ) : Option Thread :=
  t.lock.bind fun t =>
    (t.slots does nbytes).map fun t =>
      Thread.unlock { t with
        loop := { t.loop with m_loop := CustomEvents.pipeReadCb t.loop.m_loop } }

/-! ## Turns -/

/-- The thread, and whether it is stuck in a call. -/
structure System where
  thread : Thread
  stuck : Bool

def System.start (malloced : ℕ → Option CustomEvents.Event) : System where
  thread := Thread.start malloced
  stuck := false

inductive Action where
  /-- a call outside of the callbacks -/
  | call (call : Call)
  /-- `event_loop_wakeup` -/
  | wakeup
  /-- `io_read_cb` takes `k` bytes, and `pipe_read_cb` runs as many slots -/
  | drain (k : ℕ) (does : ℕ → List Call)

/-- The call returned, or the thread is stuck in it. -/
def System.after (s : System) : Option Thread → System
  | some thread => { s with thread := thread }
  | none => { s with stuck := true }

def System.step (s : System) (a : Action) : Option System :=
  if s.stuck then none
  else
    match a with
    | .call call => some (s.after (s.thread.call call))
    | .wakeup =>
      some { s with
        thread := { s.thread with
          loop := { s.thread.loop with
            m_loop := CustomEvents.eventLoopWakeup s.thread.loop.m_loop } } }
    | .drain k does =>
      let pipe := s.thread.loop.m_loop.pipe
      if 1 ≤ k ∧ k ≤ pipe.length then
        let thread := { s.thread with
          loop := { s.thread.loop with
            m_loop := { s.thread.loop.m_loop with pipe := pipe.drop k } } }
        some (s.after (thread.pipeReadCb does k))
      else none

end LibConn.NestedPosts
