import LibConn.Model.LoopThread
import Mathlib.Data.Finset.Basic

/-! # The table of ios

`get_io` enters every io of a loop into `io_array` under its descriptor. Here are the functions
of `event_loop.c` and `io.c` that make ios and close them, and the lookup in `epoll_run`. A
callback of the user is not run inside a function: what it does, and `io_read_enable` where
that is called behind it, are steps of their own. -/

namespace LibConn

/-- `event_loop_st` with the table of its ios. `io_array fd` is what a read of that place
finds, inside the array or not. -/
structure TableLoop extends Loop where
  io_array : ℤ → Option ℕ
  io_num : ℕ
  io_maxsize : ℕ

/-- `io_st` with the members that belong to making an io. `live` says that `get_io` has set up
what `free_io` frees; `threadPool` whether the io has one. -/
structure TableIo extends Io where
  loop : ℕ
  live : Bool
  connect : Bool
  accept : Bool
  connect_cb : Bool
  accept_cb : Bool
  threadPool : Bool

/-- The process: its loops and ios by their addresses, its open descriptors, and the accesses
to an `io_array` so far, each with the size of the array. -/
structure Process where
  loops : Finset ℕ
  loop : ℕ → TableLoop
  ios : Finset ℕ
  io : ℕ → TableIo
  fds : Finset ℕ
  accesses : List (ℤ × ℕ)

/-- What the calls of `malloc` in `get_io` return: the io, and whether the two buffers and
their memory were all to be had. -/
structure GetIoMem where
  io : Option ℕ
  buffers : Bool
  bytes : ℕ → UInt8

/-- What the calls inside a `create_` function return. `bind`, `listen` and so on say whether
the call succeeds, `addr` whether `malloc` does for the address in `io_connect` or `io_bind`,
and `pool` whether it does for the thread pool. -/
structure CreateWorld where
  socket : ℤ
  mem : GetIoMem
  addr : Bool
  connect : LoopThread.ConnectResult
  getpeername : Bool
  sslConnect : SslConnect
  timer : Option ℕ
  now : ℕ
  pool : Bool
  setsockopt : Bool
  bind : Bool
  listen : Bool

/-- What `malloc` and the system calls give `event_loop_init`. `io_array` and `io_num` are what
is left in the memory, and `pipefd` what is there when `pipe` fails. -/
structure InitWorld where
  loop : Bool
  array : Bool
  io_array : ℤ → Option ℕ
  io_num : ℕ
  timers_num : ℕ
  timer : ℕ → Timer
  now : ℕ
  pipe : Option (ℤ × ℤ)
  pipefd : ℤ
  epfd : ℤ
  mem : GetIoMem
  custom_events : Bool

/-- What the calls in `io_accept_cb` return. -/
structure AcceptWorld where
  conn_fd : ℤ
  mem : GetIoMem
  handshake : Handshake

namespace Process

def conn (p : Process) (i : ℕ) : Conn :=
  ⟨(p.io i).toIo, (p.loop (p.io i).loop).toLoop⟩

def setLoop (p : Process) (l : ℕ) (loop : TableLoop) : Process :=
  { p with loop := Function.update p.loop l loop }

def setIo (p : Process) (i : ℕ) (io : TableIo) : Process :=
  { p with io := Function.update p.io i io }

def setConn (p : Process) (i : ℕ) (c : Conn) : Process :=
  (p.setLoop (p.io i).loop { p.loop (p.io i).loop with toLoop := c.loop }).setIo i
    { p.io i with toIo := c.io }

def openFd (p : Process) (fd : ℤ) : Process :=
  if fd < 0 then p else { p with fds := insert fd.toNat p.fds }

def closeFd (p : Process) (fd : ℤ) : Process :=
  if fd < 0 then p else { p with fds := p.fds.erase fd.toNat }

/-! ## `get_io` and `free_io` -/

/-- An access `io_array[fd]` of the loop. -/
def access (p : Process) (l : ℕ) (fd : ℤ) : Process :=
  { p with accesses := p.accesses ++ [(fd, (p.loop l).io_maxsize)] }

/-- `loop->io_array[fd] = io; loop->io_num++;` -/
def register (p : Process) (l : ℕ) (fd : ℤ) (i : ℕ) : Process :=
  (p.access l fd).setLoop l
    { p.loop l with
      io_array := Function.update (p.loop l).io_array fd (some i)
      io_num := u32 ((p.loop l).io_num + 1) }

/-- The io behind `memset`, and its buffers where there is memory for them. -/
def newIo (l : ℕ) (fd : ℤ) (mem : GetIoMem) : TableIo where
  toIo := LibConn.getIo fd mem.bytes
  loop := l
  live := mem.buffers
  connect := false
  accept := false
  connect_cb := false
  accept_cb := false
  threadPool := false

/-- `get_io`; no io stands for `NULL`. An io without buffers stays in the table. -/
def getIo (p : Process) (l : ℕ) (fd : ℤ) (mem : GetIoMem) : Process × Option ℕ :=
  match mem.io with
  | none => (p, none)
  | some i =>
    let p := ({ p with ios := insert i p.ios }.setIo i (newIo l fd mem)).register l fd i
    (p, if mem.buffers then some i else none)

def freeIo (p : Process) (i : ℕ) : Process :=
  let p := p.setConn i (LibConn.freeIo (p.conn i))
  p.setIo i { p.io i with live := false }

/-- `io_close`; `none` where it does not return. -/
def ioClose (p : Process) (i : ℕ) : Option Process :=
  let r := LibConn.ioClose (p.conn i)
  if r.value.isNone then none
  else if (p.io i).closed then some p
  else
    let q := p.setConn i r.conn
    let q := q.setIo i { q.io i with live := false }
    some (if (p.io i).fd ≠ 0 then q.closeFd (p.io i).fd else q)

def ioReadEnable (p : Process) (i : ℕ) : Process :=
  p.setConn i (ioAdd (p.conn i) .handleEvent eventRead)

/-! ## Clients and servers -/

/-- `io_connect_cb`, up to `connect_cb`. It runs once for an io, which has no `ssl_ctx` yet. -/
def ioConnectCb (p : Process) (i : ℕ) (w : CreateWorld) : Option Process :=
  if w.getpeername = false then p.ioClose i
  else
    let p := p.setConn i (ioDel (p.conn i) eventWrite)
    if (p.io i).type = .ssl ∧ w.sslConnect = .failed then some (p.freeIo i) else some p

/-- `io_connect`, with what it returns; `none` where a `NULL` timer is dereferenced. -/
def ioConnect (p : Process) (i : ℕ) (w : CreateWorld) : Option (Process × ℤ) :=
  if w.addr = false then some (p, -1)
  else
    match w.connect with
    | .failed => some (p, -1)
    | .connected => (p.ioConnectCb i w).map fun p => (p, 0)
    | .inProgress =>
      (ioSetConnectTimeout i (p.conn i) LoopThread.defaultConnectTimeout w.now w.timer).map
        fun c =>
          let p := p.setConn i c
          let p := p.setIo i { p.io i with connect := true }
          (p.setConn i (ioAdd (p.conn i) .handleEvent eventWrite), 0)

/-- The body that the two `create_*_client` share; they differ in the type, and in whether the
socket blocks. -/
def createClient (type : IoType) (p : Process) (l : ℕ) (connect_cb close_cb : Bool)
    (w : CreateWorld) : Option (Process × Option ℕ) :=
  match (p.openFd w.socket).getIo l w.socket w.mem with
  | (p, none) => some (p, none)
  | (p, some i) =>
    let p := p.setIo i { p.io i with type := type, connect_cb := connect_cb, close_cb := close_cb }
    (p.ioConnect i w).map fun (p, ret) =>
      if ret ≠ 0 then (p.freeIo i, none) else (p, some i)

def createTcpClient := createClient .tcp

def createSslClient := createClient .ssl

def ioAccept (p : Process) (i : ℕ) : Process :=
  let p := p.setIo i { p.io i with accept := true }
  p.setConn i (ioAdd (p.conn i) .handleEvent eventRead)

/-- The body that the two `create_*_server` share. `none` where `thread_pool_start` or
`io_bind` is given no memory; the loops of the pool are made on their own threads. -/
def createServer (type : IoType) (p : Process) (l : ℕ) (accept_cb : Bool) (thread_num : ℤ)
    (w : CreateWorld) : Option (Process × Option ℕ) :=
  match (p.openFd w.socket).getIo l w.socket w.mem with
  | (p, none) => some (p, none)
  | (p, some i) =>
    let p := p.setIo i
      { p.io i with type := type, accept_cb := accept_cb, threadPool := decide (thread_num > 0) }
    if thread_num > 0 ∧ w.pool = false then none
    else if w.setsockopt = false then some (p.freeIo i, none)
    else if w.addr = false then none
    else if w.bind = false then some (p.freeIo i, none)
    else if w.listen = false then some (p.freeIo i, none)
    else some (p.ioAccept i, some i)

def createTcpServer := createServer .tcp

def createSslServer := createServer .ssl

end Process

/-- A call of one of the four functions. -/
inductive Creation where
  | tcpClient (connect_cb close_cb : Bool)
  | sslClient (connect_cb close_cb : Bool)
  | tcpServer (accept_cb : Bool) (thread_num : ℤ)
  | sslServer (accept_cb : Bool) (thread_num : ℤ)
  deriving DecidableEq, Repr

def Process.create (p : Process) (l : ℕ) (w : CreateWorld) :
    Creation → Option (Process × Option ℕ)
  | .tcpClient connect_cb close_cb => p.createTcpClient l connect_cb close_cb w
  | .sslClient connect_cb close_cb => p.createSslClient l connect_cb close_cb w
  | .tcpServer accept_cb thread_num => p.createTcpServer l accept_cb thread_num w
  | .sslServer accept_cb thread_num => p.createSslServer l accept_cb thread_num w

namespace Process

/-! ## Accepting -/

/-- `ssl_server_handshake`, up to `accept_cb`. -/
def sslServerHandshake (p : Process) (i : ℕ) (handshake : Handshake) : Option Process :=
  match handshake with
  | .done => some p
  | .wantRead =>
      some (if (p.io i).events &&& eventRead = 0 then
          p.setConn i (ioAdd (p.conn i) .sslServerHandshake eventRead)
        else p)
  | .failed => p.ioClose i

/-- `io_accept_cb` of the io `i`, where `thread_pool_get_next_loop`, or `io->loop`, is `l`. -/
def ioAcceptCb (p : Process) (i l : ℕ) (w : AcceptWorld) : Option Process :=
  if w.conn_fd < 0 then some p
  else
    match (p.openFd w.conn_fd).getIo l w.conn_fd w.mem with
    | (_, none) => none
    | (q, some j) =>
      let q := q.setIo j { q.io j with accept_cb := (p.io i).accept_cb }
      if (p.io i).type = .ssl then
        (q.setIo j { q.io j with type := .ssl }).sslServerHandshake j w.handshake
      else some (q.ioReadEnable j)

/-! ## Loops -/

/-- `event_loop_init`, whose dispatcher gets the descriptor `epfd`; `none` where `get_io`
returns `NULL`. Without memory for `custom_events` the loop is freed again, and nothing leads
to the io of its pipe any more. -/
def eventLoopInit (p : Process) (l : ℕ) (w : InitWorld) : Option Process :=
  if w.loop = false ∨ w.array = false then some p
  else
    let fd := (w.pipe.map Prod.fst).getD w.pipefd
    let loop : TableLoop :=
      { toLoop := loopInit w.now w.timers_num w.timer fun _ => none
        io_array := w.io_array
        io_num := w.io_num
        io_maxsize := 1024 }
    let p := { p with loops := insert l p.loops }.setLoop l loop
    let p := match w.pipe with
      | none => p
      | some (fd₀, fd₁) => (p.openFd fd₀).openFd fd₁
    match (p.openFd w.epfd).getIo l fd w.mem with
    | (_, none) => none
    | (p, some i) =>
      let p := p.setIo i { p.io i with type := .pipe }
      let p := p.setConn i (ioAdd (p.conn i) .handleEvent eventRead)
      let p := p.setLoop l { p.loop l with
        epoll := (epollAdd (p.loop l).epoll fd eventRead).getD (p.loop l).epoll }
      if w.custom_events then some p
      else some { p with loops := p.loops.erase l, ios := p.ios.erase i }

/-- `loop->io_array[fd]` of `epoll_run`, where `epoll_wait` has reported the descriptor. -/
def epollRun (p : Process) (l : ℕ) (fd : ℤ) : Process :=
  p.access l fd

end Process

/-! ## Runs -/

inductive TableAction where
  | init (l : ℕ) (w : InitWorld)
  | create (l : ℕ) (w : CreateWorld) (creation : Creation)
  | accept (i l : ℕ) (w : AcceptWorld)
  | close (i : ℕ)
  | readEnable (i : ℕ)
  | epollRun (l : ℕ) (fd : ℤ)
  /-- `handle_event` where the io waits for its connection -/
  | connected (i : ℕ) (w : CreateWorld)
  /-- `ssl_server_handshake` as the callback of its io -/
  | handshake (i : ℕ) (handshake : Handshake)
  /-- descriptors that the rest of the program opens and closes -/
  | openFd (fd : ℕ)
  | closeFd (fd : ℕ)

namespace Process

/-- The lowest descriptor that is free. -/
def Lowest (fds : Finset ℕ) (fd : ℤ) : Prop :=
  0 ≤ fd ∧ fd.toNat ∉ fds ∧ ∀ m < fd.toNat, m ∈ fds

instance decidableLowest (fds : Finset ℕ) (fd : ℤ) : Decidable (Lowest fds fd) :=
  inferInstanceAs (Decidable (0 ≤ fd ∧ fd.toNat ∉ fds ∧ ∀ m < fd.toNat, m ∈ fds))

/-- `malloc` returns memory that is not in use; an io is never freed. -/
def MemFree (p : Process) (mem : GetIoMem) : Prop :=
  ∀ i, mem.io = some i → i ∉ p.ios

instance decidableMemFree (p : Process) (mem : GetIoMem) : Decidable (p.MemFree mem) :=
  match h : mem.io with
  | none => .isTrue fun i hi => absurd (h.symm.trans hi) (by simp)
  | some j => decidable_of_iff (j ∉ p.ios)
      ⟨fun hj i hi => Option.some.inj (h.symm.trans hi) ▸ hj, fun hall => hall j h⟩

/-- The descriptors that `pipe` and `epoll_create1` open for a new loop. -/
def InitFds (p : Process) (w : InitWorld) : Prop :=
  match w.pipe with
  | none => Lowest p.fds w.epfd
  | some (fd₀, fd₁) =>
      Lowest p.fds fd₀ ∧ Lowest (p.openFd fd₀).fds fd₁ ∧
        Lowest ((p.openFd fd₀).openFd fd₁).fds w.epfd

instance decidableInitFds (p : Process) (w : InitWorld) : Decidable (p.InitFds w) :=
  match h : w.pipe with
  | none => decidable_of_iff (Lowest p.fds w.epfd) (by rw [InitFds, h])
  | some (fd₀, fd₁) => decidable_of_iff
      (Lowest p.fds fd₀ ∧ Lowest (p.openFd fd₀).fds fd₁ ∧
        Lowest ((p.openFd fd₀).openFd fd₁).fds w.epfd) (by rw [InitFds, h])

/-- The descriptor belongs to no io that is open. -/
def NotOfIo (p : Process) (fd : ℕ) : Prop :=
  ∀ i ∈ p.ios, (p.io i).closed = false → (p.io i).fd ≠ fd

instance decidableNotOfIo (p : Process) (fd : ℕ) : Decidable (p.NotOfIo fd) :=
  inferInstanceAs (Decidable (∀ i ∈ p.ios, (p.io i).closed = false → (p.io i).fd ≠ fd))

/-- One call, with what the kernel and `malloc` can return. -/
def step (p : Process) : TableAction → Option Process
  | .init l w =>
      if l ∉ p.loops ∧ p.MemFree w.mem ∧ p.InitFds w then p.eventLoopInit l w else none
  | .create l w creation =>
      if l ∈ p.loops ∧ p.MemFree w.mem ∧ (w.socket = -1 ∨ Lowest p.fds w.socket) then
        (p.create l w creation).map Prod.fst
      else none
  | .accept i l w =>
      if i ∈ p.ios ∧ (p.io i).accept = true ∧ (p.io i).live = true ∧
          (if (p.io i).threadPool then l ∈ p.loops else l = (p.io i).loop) ∧
          p.MemFree w.mem ∧ (w.conn_fd < 0 ∨ Lowest p.fds w.conn_fd) then
        p.ioAcceptCb i l w
      else none
  | .close i => if i ∈ p.ios then p.ioClose i else none
  | .readEnable i => if i ∈ p.ios then some (p.ioReadEnable i) else none
  | .epollRun l fd =>
      if l ∈ p.loops ∧ (p.loop l).epoll fd ≠ none then some (p.epollRun l fd) else none
  | .connected i w =>
      if i ∈ p.ios ∧ (p.io i).connect = true ∧ (p.io i).live = true then
        (p.setIo i { p.io i with connect := false }).ioConnectCb i w
      else none
  | .handshake i handshake =>
      if i ∈ p.ios ∧ (p.io i).type = .ssl ∧ (p.io i).live = true then
        p.sslServerHandshake i handshake
      else none
  | .openFd fd => if Lowest p.fds fd then some (p.openFd fd) else none
  | .closeFd fd => if p.NotOfIo fd then some (p.closeFd fd) else none

end Process

end LibConn
