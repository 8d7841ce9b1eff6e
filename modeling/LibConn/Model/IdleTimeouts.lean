import LibConn.Model.LoopThread

/-! # The idle timeouts of a loop

The thread of a loop with a record of what a user can observe of its read and write timeouts:
the timeouts that were set, when bytes were read and written, and which ios
`__read_timeout_cb` and `__writer_timeout_cb` have closed. -/

namespace LibConn

inductive Direction where
  | read
  | write
  deriving DecidableEq, Repr

/-- The timeout that watches the direction. -/
def Direction.timeout : Direction → Timeout
  | .read => .read
  | .write => .write

/-- `last_read_time` or `last_write_time` -/
def LoopIo.last (io : LoopIo) : Direction → ℕ
  | .read => io.last_read_time
  | .write => io.last_write_time

/-- The system takes at least one byte. -/
def WriteResult.takes (r : WriteResult) (effects : List Effect) : Bool :=
  !(effects.flatMap (Effect.accepted r.ret)).isEmpty

namespace LoopThread

/-- `io_write_cb` is what the event of the io leads to. -/
def flushing (s : LoopThread) (i : ℕ) : Bool :=
  match (s.io i).cb with
  | some .ioWriteCb => true
  | some .handleEvent =>
      (s.io i).events &&& eventWrite ≠ 0 && (s.io i).revents &&& eventWrite ≠ 0 &&
        !(s.io i).connect
  | _ => false

/-- `io_read_cb` is what the second half of `handle_event` leads to. -/
def reading (s : LoopThread) (i : ℕ) : Bool :=
  (s.io i).events &&& eventRead ≠ 0 && (s.io i).revents &&& eventRead ≠ 0 && !(s.io i).accept

/-- The io on which the step reads or writes bytes. -/
def transfers (s : LoopThread) : LoopAction → Option (ℕ × Direction)
  | .resume w =>
      match s.stack with
      | .readPart i :: _ => if s.reading i && w.read = .got then some (i, .read) else none
      | _ => none
  | .visit w =>
      match s.waiting with
      | .io i :: _ =>
          if s.flushing i && w.write.takes (LibConn.ioWriteCb (s.conn i) w.write w.now).effects then
            some (i, .write)
          else none
      | _ => none
  | .ioWrite i payload r now =>
      if r.takes (LibConn.ioWrite (s.conn i) payload.bytes r now).effects then some (i, .write)
      else none
  | _ => none

/-- The timer whose callback the step runs. -/
def firing (s : LoopThread) : LoopAction → Option ℕ
  | .visit _ =>
      match s.waiting with
      | .timer t :: _ => some t
      | _ => none
  | .expire =>
      match processTimerTurn s.loop with
      | .again t _ => some t
      | _ => none
  | _ => none

/-- The io whose `__read_timeout_cb` or `__writer_timeout_cb` the step runs. -/
def firingTimeout (s : LoopThread) (a : LoopAction) : Option (ℕ × Direction) :=
  (s.firing a).bind fun t =>
    match (s.loop.timer t).cb, (s.loop.timer t).privdata with
    | some .readTimeout, some i => some (i, .read)
    | some .writerTimeout, some i => some (i, .write)
    | _, _ => none

end LoopThread

/-- A timeout callback has closed an io: the timeout most recently set, when bytes were read or
written before, and the time of the callback. -/
structure TimeoutClose where
  direction : Direction
  timeout : ℤ
  moved : List ℕ
  now : ℕ
  deriving DecidableEq, Repr

/-- No byte has been read or written in the last `timeout` milliseconds. -/
def TimeoutClose.Idle (c : TimeoutClose) : Prop :=
  ∀ time ∈ c.moved, time ≤ c.now → time + c.timeout ≤ c.now

instance (c : TimeoutClose) : Decidable c.Idle :=
  inferInstanceAs (Decidable (∀ time ∈ c.moved, time ≤ c.now → time + c.timeout ≤ c.now))

/-- The thread and its history. `clock` is the time of the last step, `timeout` what was passed to
the last `io_set_read_timeout` or `io_set_write_timeout`, `moved` the times of the bytes. -/
structure IdleWatch where
  thread : LoopThread
  clock : ℕ
  timeout : ℕ → Direction → ℤ
  moved : ℕ → Direction → List ℕ
  closes : List TimeoutClose

/-- An action and the time at which it is taken. -/
structure Timed where
  now : ℕ
  action : LoopAction

/-- What `get_curtime_ms` returns is the time of the action, and a timeout is an `int`. -/
def Timed.proper (m : Timed) : Bool :=
  match m.action with
  | .tick now => now = m.now
  | .visit w => w.now = m.now
  | .resume w => w.now = m.now
  | .ioConnect _ _ _ w => w.now = m.now
  | .ioWrite _ _ _ now => now = m.now
  | .setTimeout _ _ timeout now _ => now = m.now && int32 timeout = timeout
  | .addTimer _ _ _ now _ => now = m.now
  | _ => true

namespace IdleWatch

/-- `event_loop_run` on a loop that is initialised at the time `now`. -/
def start (now timers_num : ℕ) (timer : ℕ → Timer) (epoll : EpollSet) (io : ℕ → LoopIo) :
    IdleWatch where
  thread := .start (loopInit now timers_num timer epoll) io
  clock := now
  timeout := fun _ _ => 0
  moved := fun _ _ => []
  closes := []

/-- The timeouts most recently set, behind the action. -/
def timeoutAfter (s : IdleWatch) (a : LoopAction) (i : ℕ) (d : Direction) : ℤ :=
  match a with
  | .setTimeout kind j timeout _ _ => if j = i ∧ kind = d.timeout then timeout else s.timeout i d
  | _ => s.timeout i d

def movedAfter (s : IdleWatch) (m : Timed) (i : ℕ) (d : Direction) : List ℕ :=
  if s.thread.transfers m.action = some (i, d) then m.now :: s.moved i d else s.moved i d

/-- The step, which ends in `t`, closes an io in a timeout callback. -/
def closing (s : IdleWatch) (m : Timed) (t : LoopThread) : Option TimeoutClose :=
  (s.thread.firingTimeout m.action).bind fun (i, d) =>
    if (s.thread.io i).closed = false ∧ (t.io i).closed = true then
      some ⟨d, s.timeout i d, s.moved i d, m.now⟩
    else none

/-- One step; an io that is created in it has no history. -/
def step (s : IdleWatch) (m : Timed) : Option IdleWatch :=
  if m.proper then
    (s.thread.step m.action).map fun t =>
      { thread := t
        clock := m.now
        timeout := fun i d => if i ∉ s.thread.ios ∧ i ∈ t.ios then 0 else s.timeoutAfter m.action i d
        moved := fun i d => if i ∉ s.thread.ios ∧ i ∈ t.ios then [] else s.movedAfter m i d
        closes := s.closes ++ (s.closing m t).toList }
  else none

end IdleWatch

end LibConn
