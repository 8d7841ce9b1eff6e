import LibConn.Model.TimerSystem

/-! # The thread of a loop

What `event_loop_run` does on its thread: timers expire, the dispatcher reports events,
`process_pending_event` runs the callbacks. A callback of the user may call the functions of
the library; what the library does behind such a callback waits on `stack` meanwhile. -/

namespace LibConn

/-- The callbacks of an io: those that the user sets, and its timeout callbacks. -/
inductive IoCallback where
  | read
  | write
  | connect
  | accept
  | close
  | timeout (kind : Timeout)
  deriving DecidableEq, Repr

/-- An event on the pending list. -/
inductive LoopEvent where
  | io (i : ℕ)
  | timer (t : ℕ)
  deriving DecidableEq, Repr

/-- What the thread has still to do. -/
inductive Frame where
  /-- a callback of the user runs; with it, perhaps, the `write_mutex` of an io is held -/
  | user (held : Option ℕ)
  /-- the end of `io_close`, behind `close_cb` -/
  | closed (i : ℕ)
  /-- `io_read_enable`, behind `connect_cb` or `accept_cb` -/
  | readEnable (i : ℕ)
  /-- the second half of `handle_event` -/
  | readPart (i : ℕ)
  /-- the rest of the turn of `process_pending_event`, behind `cur->cb(cur)` -/
  | done (e : LoopEvent)
  deriving DecidableEq, Repr

/-- The type of an io and the callbacks that are set. -/
structure IoSettings where
  type : IoType
  read_cb : Bool
  write_cb : Bool
  connect_cb : Bool
  accept_cb : Bool
  close_cb : Bool
  deriving DecidableEq, Repr

/-- `io_st` with the members that the thread uses besides those of `Io`. -/
structure LoopIo extends Io where
  revents : Mask
  pending : Bool
  connect : Bool
  accept : Bool
  last_read_time : ℕ
  read_cb : Bool
  connect_cb : Bool
  accept_cb : Bool

/-- `io_set_readcb` and its siblings -/
def LoopIo.set (io : LoopIo) (settings : IoSettings) : LoopIo :=
  { io with
    type := settings.type
    read_cb := settings.read_cb
    write_cb := settings.write_cb
    connect_cb := settings.connect_cb
    accept_cb := settings.accept_cb
    close_cb := settings.close_cb }

/-- `get_io` with the given callbacks. -/
def LoopIo.new (fd : ℤ) (malloced : ℕ → UInt8) (settings : IoSettings) : LoopIo :=
  LoopIo.set
    { toIo := getIo fd malloced
      revents := 0
      pending := false
      connect := false
      accept := false
      last_read_time := 0
      read_cb := false
      connect_cb := false
      accept_cb := false }
    settings

/-- The thread, with the ios that there are. `expiring` holds inside of `process_timer` and
`walking` inside of `process_pending_event`; `waiting` holds the events behind `loop->pending` that
the latter has still to visit. `returned` holds the ios whose `io_close` has returned, and `calls`
the callbacks run so far, each with whether its io was one of them. -/
structure LoopThread where
  loop : Loop
  ios : Finset ℕ
  io : ℕ → LoopIo
  waiting : List LoopEvent
  expiring : Bool
  walking : Bool
  stack : List Frame
  returned : Finset ℕ
  calls : List (ℕ × IoCallback × Bool)

/-- `event_loop_run` on a new loop. -/
def LoopThread.start (loop : Loop) (io : ℕ → LoopIo) : LoopThread where
  loop := loop
  ios := ∅
  io := io
  waiting := []
  expiring := false
  walking := false
  stack := []
  returned := ∅
  calls := []

namespace LoopThread

def conn (s : LoopThread) (i : ℕ) : Conn :=
  ⟨(s.io i).toIo, s.loop⟩

def setIo (s : LoopThread) (i : ℕ) (io : LoopIo) : LoopThread :=
  { s with io := Function.update s.io i io }

def setConn (s : LoopThread) (i : ℕ) (c : Conn) : LoopThread :=
  { s.setIo i { s.io i with toIo := c.io } with loop := c.loop }

def push (s : LoopThread) (frames : List Frame) : LoopThread :=
  { s with stack := frames ++ s.stack }

/-- A callback of the io is called. -/
def call (s : LoopThread) (i : ℕ) (cb : IoCallback) : LoopThread :=
  { s with calls := s.calls ++ [(i, cb, decide (i ∈ s.returned))] }

/-- The `write_mutex` is held by the function whose callback runs. -/
def held (s : LoopThread) (i : ℕ) : Bool :=
  s.stack.contains (.user (some i))

end LoopThread

def Effect.callback : Effect → Option IoCallback
  | .write _ => none
  | .writeCb _ _ _ => some .write
  | .closeCb => some .close

/-- The frames of the callback, and of what follows it. -/
def Effect.frames (i : ℕ) : Effect → List Frame
  | .write _ => []
  | .writeCb _ _ _ => [.user (some i)]
  | .closeCb => [.user none, .closed i]

/-- What system calls return in a step. `read` and the others stand for the branch that the
result leads to; `accepted` is the address and the descriptor of the new io. -/
inductive ReadOutcome where
  | got
  | again
  | closes
  deriving DecidableEq, Repr

inductive SslConnect where
  | skipped
  | failed
  | done
  deriving DecidableEq, Repr

inductive Handshake where
  | done
  | wantRead
  | failed
  deriving DecidableEq, Repr

structure World where
  now : ℕ
  getpeername : Bool
  sslConnect : SslConnect
  handshake : Handshake
  read : ReadOutcome
  write : WriteResult
  accepted : Option (ℕ × ℤ)
  malloced : ℕ → UInt8

namespace LoopThread

/-! ## Functions on an io -/

/-- A call of `io_close`, `io_write` or `io_write_cb`; `none` where the thread waits for a
mutex it holds. What the function does behind a callback concerns its buffers and its
descriptor only and is done at once. -/
def ran {α : Type} (s : LoopThread) (i : ℕ) (r : Ran α) : Option LoopThread :=
  if s.held i || r.value.isNone then none
  else
    let t := (r.effects.filterMap Effect.callback).foldl (fun s cb => s.call i cb) s
    let t := (t.setConn i r.conn).push (r.effects.flatMap (Effect.frames i))
    some (
      if r.conn.io.closed && !(s.io i).closed && !r.conn.io.close_cb then
        { t with returned := insert i t.returned }
      else t)

def ioClose (s : LoopThread) (i : ℕ) : Option LoopThread :=
  s.ran i (LibConn.ioClose (s.conn i))

def ioWriteCb (s : LoopThread) (i : ℕ) (w : World) : Option LoopThread :=
  s.ran i (LibConn.ioWriteCb (s.conn i) w.write w.now)

def ioReadEnable (s : LoopThread) (i : ℕ) : LoopThread :=
  s.setConn i (ioAdd (s.conn i) .handleEvent eventRead)

/-- `if (io->connect_cb) { io->connect_cb(io); io_read_enable(io); }` -/
def connectCb (s : LoopThread) (i : ℕ) : LoopThread :=
  if (s.io i).connect_cb then (s.call i .connect).push [.user none, .readEnable i] else s

def ioConnectCb (s : LoopThread) (i : ℕ) (w : World) : Option LoopThread :=
  let s := s.setIo i { s.io i with last_read_time := w.now }
  if w.getpeername = false then s.ioClose i
  else
    let s := s.setConn i (ioDel (s.conn i) eventWrite)
    if (s.io i).type = .ssl then
      match w.sslConnect with
      | .skipped => some s
      | .failed => some (s.setConn i (freeIo (s.conn i)))
      | .done => some (s.connectCb i)
    else some (s.connectCb i)

/-- `ssl_server_handshake` -/
def sslServerHandshake (s : LoopThread) (i : ℕ) (w : World) : Option LoopThread :=
  match w.handshake with
  | .done =>
      some (if (s.io i).accept_cb then (s.call i .accept).push [.user none, .readEnable i]
        else s.ioReadEnable i)
  | .wantRead =>
      some (if (s.io i).events &&& eventRead = 0 then
          s.setConn i (ioAdd (s.conn i) .sslServerHandshake eventRead)
        else s)
  | .failed => s.ioClose i

/-- `io_accept_cb`, for an io without a thread pool. -/
def ioAcceptCb (s : LoopThread) (i : ℕ) (w : World) : Option LoopThread :=
  match w.accepted with
  | none => some s
  | some (j, fd) =>
      if j ∈ s.ios then none
      else
        let settings : IoSettings :=
          { type := if (s.io i).type = .ssl then .ssl else .tcp
            read_cb := false, write_cb := false, connect_cb := false
            accept_cb := (s.io i).accept_cb, close_cb := false }
        let s := { s with ios := insert j s.ios }.setIo j (.new fd w.malloced settings)
        if settings.type = .ssl then s.sslServerHandshake j w
        else
          let s := s.ioReadEnable j
          some (if (s.io j).accept_cb then (s.call j .accept).push [.user none] else s)

def ioReadCb (s : LoopThread) (i : ℕ) (w : World) : Option LoopThread :=
  let s := s.setIo i { s.io i with last_read_time := s.loop.cur_ms }
  match w.read with
  | .closes => s.ioClose i
  | .again => some s
  | .got => some (if (s.io i).read_cb then (s.call i .read).push [.user none] else s)

/-- The first half of `handle_event`. -/
def writePart (s : LoopThread) (i : ℕ) (w : World) : Option LoopThread :=
  if (s.io i).events &&& eventWrite ≠ 0 ∧ (s.io i).revents &&& eventWrite ≠ 0 then
    if (s.io i).connect then (s.setIo i { s.io i with connect := false }).ioConnectCb i w
    else s.ioWriteCb i w
  else some s

/-- The second half of `handle_event`. -/
def readPart (s : LoopThread) (i : ℕ) (w : World) : Option LoopThread :=
  if (s.io i).events &&& eventRead ≠ 0 ∧ (s.io i).revents &&& eventRead ≠ 0 then
    if (s.io i).accept then s.ioAcceptCb i w else s.ioReadCb i w
  else some s

/-- `io->cb(io)` -/
def runIo (s : LoopThread) (i : ℕ) (w : World) : Option LoopThread :=
  match (s.io i).cb with
  | none => some s
  | some .handleEvent => (s.push [.readPart i]).writePart i w
  | some .ioWriteCb => s.ioWriteCb i w
  | some .sslServerHandshake => s.sslServerHandshake i w

/-- `DEFAULT_CONNECT_TIMEOUT` -/
def defaultConnectTimeout : ℤ := 5000

/-- What `connect` returns to `io_connect`. -/
inductive ConnectResult where
  | connected
  | inProgress
  | failed
  deriving DecidableEq, Repr

def ioConnect (s : LoopThread) (i : ℕ) (r : ConnectResult) (mem : Option ℕ) (w : World) :
    Option LoopThread :=
  match r with
  | .failed => some s
  | .connected => s.ioConnectCb i w
  | .inProgress =>
      if s.loop.memFree mem then
        (ioSetConnectTimeout i (s.conn i) defaultConnectTimeout w.now mem).map fun c =>
          let s := s.setConn i c
          let s := s.setIo i { s.io i with connect := true }
          s.setConn i (ioAdd (s.conn i) .handleEvent eventWrite)
      else none

/-! ## Timers -/

/-- What `__read_timeout_cb` and `__writer_timeout_cb` share. -/
def inactive (s : LoopThread) (i : ℕ) (kind : Timeout) (last : ℕ) (t : ℕ) : Option LoopThread :=
  let inactive_ms := u64 ((s.loop.cur_ms : ℤ) - last)
  if inactive_ms < u64 ((s.io i).timeout kind) then
    (resetTimer s.loop t ((s.io i).timeout kind)).map fun loop => { s with loop := loop }
  else s.ioClose i

/-- `timer->cb(timer)`, if it is set; `none` where the callback finds no io. -/
def runTimer (s : LoopThread) (t : ℕ) : Option LoopThread :=
  match (s.loop.timer t).cb, (s.loop.timer t).privdata with
  | none, _ => some s
  | some (.user _), _ => some (s.push [.user none])
  | some .readTimeout, some i =>
      (s.call i (.timeout .read)).inactive i .read (s.io i).last_read_time t
  | some .writerTimeout, some i =>
      (s.call i (.timeout .write)).inactive i .write (s.io i).last_write_time t
  | some .closeTimeout, some i => (s.call i (.timeout .close)).ioClose i
  | some .connectTimeout, some i => (s.call i (.timeout .connect)).ioClose i
  | some _, none => none

/-- A turn of `process_timer`; `none` where the heap is empty or the timer at the top is gone. -/
def expire (s : LoopThread) : Option LoopThread :=
  match processTimerTurn s.loop with
  | .fault => none
  | .stop => none
  | .last t loop =>
      if (s.loop.timer t).allocated then
        some { s with
          loop := loop
          expiring := true
          waiting := if (s.loop.timer t).pending then s.waiting else .timer t :: s.waiting }
      else none
  | .again t loop =>
      if (s.loop.timer t).allocated then { s with loop := loop, expiring := true }.runTimer t
      else none

/-- `process_timer` comes to its end: there is a timer at the top, and it is not due. -/
def timersWait (s : LoopThread) : Bool :=
  match processTimerTurn s.loop with
  | .stop => true
  | _ => false

/-! ## The pending list -/

/-- The interest that is registered for an io, as `EVENT_READ` and `EVENT_WRITE`. -/
def interest (s : LoopThread) (i : ℕ) : Mask :=
  match s.loop.epoll (s.io i).fd with
  | none => 0
  | some events =>
      (if events &&& epollIn ≠ 0 then eventRead else 0) |||
        (if events &&& epollOut ≠ 0 then eventWrite else 0)

/-- `epoll_run` for a descriptor that is ready. -/
def dispatch (s : LoopThread) (i : ℕ) (revents : Mask) : LoopThread :=
  { s.setIo i { s.io i with revents := revents, pending := true } with
    waiting := if (s.io i).pending then s.waiting else .io i :: s.waiting }

/-- A turn of `process_pending_event` up to the callback, or its end. -/
def visit (s : LoopThread) (w : World) : Option LoopThread :=
  match s.waiting with
  | [] => some { s with walking := false, loop := { s.loop with pending := none } }
  | .io i :: rest =>
      if (s.io i).cb = none then some { s with waiting := rest }
      else ({ s with waiting := rest }.push [.done (.io i)]).runIo i w
  | .timer t :: rest =>
      if (s.loop.timer t).allocated = false then none
      else if (s.loop.timer t).cb = none then some { s with waiting := rest }
      else ({ s with waiting := rest }.push [.done (.timer t)]).runTimer t

/-- The rest of the turn. -/
def finish (s : LoopThread) : LoopEvent → LoopThread
  | .io i => s.setIo i { s.io i with pending := false }
  | .timer t => { s with loop := pendingDone s.loop t }

/-- The thread goes on where a callback has returned. -/
def resume (s : LoopThread) (w : World) : Option LoopThread :=
  match s.stack with
  | [] => none
  | .user _ :: _ => none
  | .closed i :: rest => some { s with stack := rest, returned := insert i s.returned }
  | .readEnable i :: rest => some ({ s with stack := rest }.ioReadEnable i)
  | .readPart i :: rest => { s with stack := rest }.readPart i w
  | .done e :: rest => some ({ s with stack := rest }.finish e)

end LoopThread

/-! ## Runs -/

inductive LoopAction where
  /-- `update_loop_timer` -/
  | tick (now : ℕ)
  | expire
  | dispatch (i : ℕ) (revents : Mask)
  /-- `process_pending_event` is called -/
  | walk
  | visit (w : World)
  | resume (w : World)
  /-- a callback of the user returns -/
  | ret
  | getIo (i : ℕ) (fd : ℤ) (malloced : ℕ → UInt8) (settings : IoSettings)
  | set (i : ℕ) (settings : IoSettings)
  | ioConnect (i : ℕ) (r : LoopThread.ConnectResult) (mem : Option ℕ) (w : World)
  | ioAccept (i : ℕ)
  | ioReadEnable (i : ℕ)
  | ioWrite (i : ℕ) (payload : Payload) (r : WriteResult) (now : ℕ)
  | ioClose (i : ℕ)
  | setTimeout (kind : Timeout) (i : ℕ) (timeout : ℤ) (now : ℕ) (mem : Option ℕ)
  /-- `io_remove_read_timeout` and `io_remove_write_timeout` -/
  | removeTimeout (write : Bool) (i : ℕ)
  | addTimer (timeout : ℤ) (k repeats now : ℕ) (mem : Option ℕ)
  | delTimer (t : ℕ)

namespace LoopThread

/-- No callback runs, and `process_pending_event` does not. -/
def betweenTurns (s : LoopThread) : Bool :=
  s.stack.isEmpty && !s.walking

/-- The thread is between two functions of `event_loop_run`. -/
def idle (s : LoopThread) : Bool :=
  s.betweenTurns && !s.expiring

/-- The user's code runs: in a callback, or before and between the turns of the loop. -/
def userRuns (s : LoopThread) : Bool :=
  match s.stack with
  | [] => !s.walking && !s.expiring
  | .user _ :: _ => true
  | _ => false

/-- A call that the user's code makes. -/
def userCall (s : LoopThread) : LoopAction → Option LoopThread
  | .getIo i fd malloced settings =>
      if i ∈ s.ios then none
      else some ({ s with ios := insert i s.ios }.setIo i (.new fd malloced settings))
  | .set i settings => if i ∈ s.ios then some (s.setIo i ((s.io i).set settings)) else none
  | .ioConnect i r mem w => if i ∈ s.ios then s.ioConnect i r mem w else none
  | .ioAccept i =>
      if i ∈ s.ios then some ((s.setIo i { s.io i with accept := true }).ioReadEnable i) else none
  | .ioReadEnable i => if i ∈ s.ios then some (s.ioReadEnable i) else none
  | .ioWrite i payload r now =>
      if i ∈ s.ios then s.ran i (LibConn.ioWrite (s.conn i) payload.bytes r now) else none
  | .ioClose i => if i ∈ s.ios then s.ioClose i else none
  | .setTimeout kind i timeout now mem =>
      if i ∈ s.ios ∧ s.loop.memFree mem then
        (ioSetTimeoutOf kind i (s.conn i) timeout now mem).map (s.setConn i)
      else none
  | .removeTimeout write i =>
      if i ∈ s.ios then
        some (s.setConn i (ioRemoveTimeout (if write then .write else .read) (s.conn i)))
      else none
  | .addTimer timeout k repeats now mem =>
      if s.loop.memFree mem then
        some { s with loop := (LibConn.addTimer s.loop timeout (some (.user k)) repeats now mem).2 }
      else none
  | .delTimer t =>
      if (s.loop.timer t).allocated then some { s with loop := LibConn.delTimer s.loop t } else none
  | _ => none

/-- One step of the thread; `none` where it is not the time for the action, and where the
thread is stuck or its behaviour undefined. -/
def step (s : LoopThread) : LoopAction → Option LoopThread
  | .tick now => if s.idle then some { s with loop := updateLoopTimer s.loop now } else none
  | .expire => if s.betweenTurns then s.expire else none
  | .dispatch i revents =>
      if s.idle ∧ i ∈ s.ios ∧ revents ≠ 0 ∧ revents &&& ~~~s.interest i = 0 then
        some (s.dispatch i revents)
      else none
  | .walk =>
      if s.betweenTurns ∧ (s.expiring = true → s.timersWait = true) then
        some { s with expiring := false, walking := true }
      else none
  | .visit w => if s.walking ∧ s.stack = [] then s.visit w else none
  | .resume w => s.resume w
  | .ret =>
      match s.stack with
      | .user _ :: rest => some { s with stack := rest }
      | _ => none
  | a => if s.userRuns then s.userCall a else none

end LoopThread

end LibConn
