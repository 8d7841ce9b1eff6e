import LibConn.Model.Timer
import LibConn.Shared.Memory

/-! # An io and its loop

The functions of `io.c` and `event_loop.c` that arm, write and close one `io_t`. What the
system calls return is an argument. A function ends with no value where its thread waits
for a mutex that it holds itself. -/

namespace LibConn

open LibConn.Memory

/-- `IO_TYPE` -/
inductive IoType where
  | tcp
  | udp
  | pipe
  | ssl
  deriving DecidableEq, Repr

/-- The functions that `io_add` installs. -/
inductive EventCb where
  | handleEvent
  | ioWriteCb
  | sslServerHandshake
  deriving DecidableEq, Repr

/-- The four timers of an io. -/
inductive Timeout where
  | read
  | write
  | close
  | connect
  deriving DecidableEq, Repr

/-- `buffer_st` -/
structure Buffer where
  base : ℕ → UInt8
  len : ℕ
  head : ℕ
  tail : ℕ
  maxSize : ℕ

/-- `io_st`. `write_mutex` says whether the mutex is held, `write_cb` and `close_cb`
whether they are set; `timer` and `timeout` are the fields `read_timer`, `read_timeout`
and so on. -/
structure Io where
  fd : ℤ
  events : Mask
  cb : Option EventCb
  type : IoType
  last_write_time : ℕ
  write_buf : Buffer
  write_mutex : Bool
  write_cb : Bool
  close_cb : Bool
  closed : Bool
  timer : Timeout → Option ℕ
  timeout : Timeout → ℤ

/-- `MAX_IO_BUF_SIZE` -/
def maxIoBufSize : ℕ := 1024 * 1024 * 2

/-- The io that `get_io` returns, with what `malloc` left in the write buffer. -/
def getIo (fd : ℤ) (malloced : ℕ → UInt8) : Io where
  fd := fd
  events := 0
  cb := none
  type := .tcp
  last_write_time := 0
  write_buf :=
    { base := malloced, len := maxIoBufSize, head := 0, tail := 0, maxSize := maxIoBufSize }
  write_mutex := false
  write_cb := false
  close_cb := false
  closed := false
  timer := fun _ => none
  timeout := fun _ => 0

/-- An io together with the loop it points to. -/
structure Conn where
  io : Io
  loop : Loop

/-- The bytes between `head` and `tail`. -/
def Buffer.unsent (buf : Buffer) : List UInt8 :=
  slice buf.base buf.head buf.tail

/-! ## Interest -/

/-- `io_add`; that the dispatcher fails is not looked at. -/
def ioAdd (c : Conn) (cb : EventCb) (event : Mask) : Conn :=
  let io := { c.io with cb := some cb }
  if io.events &&& event = 0 then
    { io := { io with events := io.events ||| event }
      loop := { c.loop with epoll := (epollAdd c.loop.epoll io.fd event).getD c.loop.epoll } }
  else { c with io := io }

/-- `io_del` -/
def ioDel (c : Conn) (event : Mask) : Conn :=
  if c.io.events &&& event ≠ 0 then
    { io := { c.io with events := c.io.events &&& ~~~event }
      loop := { c.loop with epoll := (epollDel c.loop.epoll c.io.fd event).getD c.loop.epoll } }
  else c

/-! ## Timeouts -/

/-- `io_remove_read_timeout`, `io_remove_write_timeout`, `io_remove_close_timeout` and
`io_remove_connect_timeout`, by the timer they are about. -/
def ioRemoveTimeout (kind : Timeout) (c : Conn) : Conn :=
  match c.io.timer kind with
  | none => c
  | some t =>
    { io := { c.io with
        timeout := Function.update c.io.timeout kind 0
        timer := Function.update c.io.timer kind none }
      loop := c.loop.removeTimer t }

def ioRemoveReadTimeout : Conn → Conn := ioRemoveTimeout .read

def ioRemoveWriteTimeout : Conn → Conn := ioRemoveTimeout .write

def ioRemoveCloseTimeout : Conn → Conn := ioRemoveTimeout .close

def ioRemoveConnectTimeout : Conn → Conn := ioRemoveTimeout .connect

/-- The body that the `io_set_*_timeout` share: `negative` is what they do with a negative
timeout, `cb` the callback. `none` where a `NULL` timer is dereferenced. -/
def ioSetTimeout (kind : Timeout) (negative : Conn → Conn) (cb : TimerCb) (self : ℕ) (c : Conn)
    (timeout : ℤ) (now : ℕ) (mem : Option ℕ) : Option Conn :=
  if timeout < 0 then some (negative c)
  else
    match c.io.timer kind with
    | some t => (resetTimer c.loop t timeout).map fun loop => { c with loop := loop }
    | none =>
      match addTimer c.loop timeout (some cb) 1 now mem with
      | (none, _) => none
      | (some t, loop) =>
        some
          { io := { c.io with
              timeout := Function.update c.io.timeout kind timeout
              timer := Function.update c.io.timer kind (some t) }
            loop := loop.setTimer t { loop.timer t with privdata := some self } }

/-- `io_set_read_timeout` on the io at address `self` -/
def ioSetReadTimeout := ioSetTimeout .read ioRemoveReadTimeout .readTimeout

/-- `io_set_write_timeout` -/
def ioSetWriteTimeout := ioSetTimeout .write ioRemoveWriteTimeout .writerTimeout

/-- `io_set_close_timeout` ignores a negative timeout. -/
def ioSetCloseTimeout := ioSetTimeout .close id .closeTimeout

/-- `io_set_connect_timeout` ignores a negative timeout. -/
def ioSetConnectTimeout := ioSetTimeout .connect id .connectTimeout

/-! ## Calls that may block -/

/-- Where the bytes lie that a callback is shown. -/
inductive Source where
  | payload
  | writeBuf
  deriving DecidableEq, Repr

/-- What a call does outside the io: it passes bytes to `write` or `SSL_write`, and it
calls `write_cb(io, source + offset, writebytes)` and `close_cb(io)`. -/
inductive Effect where
  | write (bytes : List UInt8)
  | writeCb (source : Source) (offset writebytes : ℕ)
  | closeCb
  deriving DecidableEq, Repr

/-- How a call ends: no `value` means that it never returns. -/
structure Ran (α : Type) where
  conn : Conn
  value : Option α
  effects : List Effect

/-- What comes before a call. -/
def Ran.after {α : Type} (effects : List Effect) (r : Ran α) : Ran α :=
  { r with effects := effects ++ r.effects }

def Ran.andThen {α β : Type} (r : Ran α) (f : Conn → Ran β) : Ran β :=
  match r.value with
  | none => { conn := r.conn, value := none, effects := r.effects }
  | some _ => (f r.conn).after r.effects

def Conn.lock (c : Conn) : Conn :=
  { c with io := { c.io with write_mutex := true } }

def Conn.unlock (c : Conn) : Conn :=
  { c with io := { c.io with write_mutex := false } }

/-- `close_socket`; the kernel drops a closed descriptor from the interest list. -/
def closeSocket (c : Conn) : Conn where
  io := { c.io with fd := -1 }
  loop := { c.loop with epoll := Function.update c.loop.epoll c.io.fd none }

/-- `free_io`, as far as the write buffer goes: it frees the memory and sets the pointer to
`NULL`. The io itself stays, and a destroyed mutex is free. -/
def freeIo (c : Conn) : Conn :=
  { c with io := { c.io with
      write_buf := { base := fun _ => 0, len := 0, head := 0, tail := 0, maxSize := 0 }
      write_mutex := false } }

/-- `io_close` -/
def ioClose (c : Conn) : Ran Unit :=
  if c.io.write_mutex then ⟨c, none, []⟩
  else if c.io.closed then ⟨c, some (), []⟩
  else
    let c := { c with io := { c.io with closed := true } }
    let c := ioDel (ioDel c eventRead) eventWrite
    let c := ioRemoveWriteTimeout (ioRemoveReadTimeout c)
    let c := ioRemoveCloseTimeout (ioRemoveConnectTimeout c)
    let effects := if c.io.close_cb then [.closeCb] else []
    let c := if c.io.fd ≠ 0 then closeSocket c else c
    ⟨freeIo c, some (), effects⟩

/-! ## Writing -/

/-- `errno`, as far as it is told apart. -/
inductive Errno where
  | eagain
  | eintr
  | other
  deriving DecidableEq, Repr

/-- `SSL_get_error`, as far as it is told apart. -/
inductive SslError where
  | wantRead
  | wantWrite
  | other
  deriving DecidableEq, Repr

/-- What one `write` or `SSL_write` returns, and what `errno` and `SSL_get_error` say
where they are asked. -/
structure WriteResult where
  ret : ℤ
  errno : Errno
  ssl_err : SslError
  deriving DecidableEq, Repr

/-- The write may be tried again later. -/
def Errno.again (errno : Errno) : Bool :=
  errno = .eagain || errno = .eintr

def SslError.want (ssl_err : SslError) : Bool :=
  ssl_err = .wantRead || ssl_err = .wantWrite

/-- What `io_write_cb` looks at where a write has failed. -/
def WriteResult.again (r : WriteResult) (type : IoType) : Bool :=
  if type = .ssl then r.ssl_err.want else r.errno.again

/-- A value as `int`. -/
def int32 (n : ℤ) : ℤ :=
  n.bmod (2 ^ 32)

/-- `buffer_is_empty` -/
def bufferIsEmpty (buf : Buffer) : Bool :=
  buf.head = buf.tail

/-- `buffer_append_data`; `none` stands for `-1`. -/
def bufferAppendData (write_buf : Buffer) (buf : List UInt8) : Option Buffer :=
  if u64 (write_buf.tail + buf.length) > write_buf.maxSize then none
  else
    some { write_buf with
      base := copy write_buf.base write_buf.tail buf
      tail := u64 (write_buf.tail + buf.length) }

def Conn.setWriteBuf (c : Conn) (write_buf : Buffer) : Conn :=
  { c with io := { c.io with write_buf := write_buf } }

/-- `__write_cb(io, buf + offset, len)` -/
def writeCb (c : Conn) (offset len : ℕ) : List Effect :=
  if c.io.write_cb then [.writeCb .payload offset len] else []

/-- `io_close(io); return value;` -/
def closeAndReturn (c : Conn) (value : ℤ) : Ran ℤ :=
  (ioClose c).andThen fun c => ⟨c, some value, []⟩

/-- The branch of `io_write` for `IO_TYPE_SSL`, entered with the mutex held. -/
def ioWriteSsl (c : Conn) (buf : List UInt8) (r : WriteResult) : Ran ℤ :=
  Ran.after [.write buf] <|
    let nwrite := int32 r.ret
    if nwrite < 0 then
      -- nothing is queued, and only a fatal error unlocks
      if r.ssl_err.want then ⟨c, some nwrite, []⟩
      else closeAndReturn c.unlock nwrite
    else if nwrite < buf.length then
      let n := nwrite.toNat
      Ran.after (writeCb c n (buf.length - n)) <|
        match bufferAppendData c.io.write_buf (buf.drop n) with
        | none => closeAndReturn c.unlock nwrite
        | some write_buf =>
          -- returns with the mutex held
          ⟨ioAdd (c.setWriteBuf write_buf) .ioWriteCb eventWrite, some nwrite, []⟩
    else ⟨c.unlock, some nwrite, writeCb c 0 buf.length⟩

/-- `if (nwrite > 0) io->last_write_time = get_curtime_ms();` and the unlock. -/
def ioWriteDone (c : Conn) (nwrite : ℤ) (now : ℕ) : Ran ℤ :=
  let c := if nwrite > 0 then { c with io := { c.io with last_write_time := now } } else c
  ⟨c.unlock, some nwrite, []⟩

/-- The other branch of `io_write`, entered with the mutex held. -/
def ioWriteTcp (c : Conn) (buf : List UInt8) (r : WriteResult) (now : ℕ) : Ran ℤ :=
  if c.io.fd = -1 then ⟨c.unlock, some (-1), []⟩
  else
    Ran.after [.write buf] <|
      let nwrite := int32 r.ret
      if nwrite < 0 then
        if r.errno.again then
          match bufferAppendData c.io.write_buf buf with
          | none => closeAndReturn c.unlock 0
          | some write_buf =>
            ⟨(ioAdd (c.setWriteBuf write_buf) .ioWriteCb eventWrite).unlock, some 0, []⟩
        else closeAndReturn c.unlock (-1)
      else if nwrite < buf.length then
        let n := nwrite.toNat
        Ran.after (writeCb c n (buf.length - n)) <|
          match bufferAppendData c.io.write_buf (buf.drop n) with
          | none => closeAndReturn c.unlock nwrite
          | some write_buf =>
            ioWriteDone (ioAdd (c.setWriteBuf write_buf) .ioWriteCb eventWrite) nwrite now
      else Ran.after (writeCb c 0 buf.length) (ioWriteDone c nwrite now)

/-- `io_write` of `buf` with `len = buf.length`. -/
def ioWrite (c : Conn) (buf : List UInt8) (r : WriteResult) (now : ℕ) : Ran ℤ :=
  if c.io.write_mutex then ⟨c, none, []⟩
  else
    let c := c.lock
    if c.io.closed then ⟨c.unlock, some (-1), []⟩
    else if bufferIsEmpty c.io.write_buf = false then
      match bufferAppendData c.io.write_buf buf with
      | none => closeAndReturn c.unlock (-1)
      | some write_buf => ⟨(c.setWriteBuf write_buf).unlock, some 0, []⟩
    else if c.io.type = .ssl then ioWriteSsl c buf r
    else ioWriteTcp c buf r now

/-- `io_write_cb` once `nwrite` bytes are taken: it reports them and moves `head`. -/
def ioFlushed (c : Conn) (nwrite : ℤ) : Ran Unit :=
  let buf := c.io.write_buf
  let n := nwrite.toNat
  let effects := if c.io.write_cb then [.writeCb .writeBuf buf.head (buf.head + n)] else []
  let write_buf :=
    if n = buf.tail - buf.head then { buf with head := 0, tail := 0 }
    else { buf with head := buf.head + n }
  ⟨(c.setWriteBuf write_buf).unlock, some (), effects⟩

/-- `io_write_cb`. The SSL branch asks `SSL_get_error` before it writes. -/
def ioWriteCb (c : Conn) (r : WriteResult) (now : ℕ) : Ran Unit :=
  if c.io.closed then ⟨c, some (), []⟩
  else if c.io.write_mutex then ⟨c, none, []⟩
  else
    let c := { c.lock with io := { c.lock.io with last_write_time := now } }
    if bufferIsEmpty c.io.write_buf then ⟨c.unlock, some (), []⟩
    else
      Ran.after [.write c.io.write_buf.unsent] <|
        let nwrite := int32 r.ret
        if nwrite < 0 then
          if r.again c.io.type then ⟨c.unlock, some (), []⟩
          -- the mutex is still held, so `io_close` does not get past its first line
          else (ioClose c).andThen fun c => ⟨c.unlock, some (), []⟩
        else ioFlushed c nwrite

/-! ## Sequences of calls -/

/-- What a caller passes to `io_write`: a C object, so its size is below `2^63`. -/
structure Payload where
  bytes : List UInt8
  size_lt : bytes.length < 2 ^ 63

inductive IoCall where
  | write (payload : Payload) (r : WriteResult) (now : ℕ)
  | writeCb (r : WriteResult) (now : ℕ)
  | close

def Conn.call (c : Conn) : IoCall → Ran Unit
  | .write payload r now => (ioWrite c payload.bytes r now).andThen fun c => ⟨c, some (), []⟩
  | .writeCb r now => LibConn.ioWriteCb c r now
  | .close => ioClose c

/-- What the write of a call returns, if it comes to that. -/
def IoCall.ret : IoCall → ℤ
  | .write _ r _ => r.ret
  | .writeCb r _ => r.ret
  | .close => 0

def IoCall.payload : IoCall → List UInt8
  | .write payload _ _ => payload.bytes
  | _ => []

/-- The bytes that the system takes when each write returns `ret`. -/
def Effect.accepted (ret : ℤ) : Effect → List UInt8
  | .write bytes => bytes.take ret.toNat
  | _ => []

/-- `write` returns `-1` or the number of bytes it took. -/
def Effect.Legal (ret : ℤ) : Effect → Prop
  | .write bytes => ret = -1 ∨ (0 ≤ ret ∧ ret ≤ bytes.length)
  | _ => True

instance (ret : ℤ) : (effect : Effect) → Decidable (effect.Legal ret)
  | .write bytes => inferInstanceAs (Decidable (ret = -1 ∨ (0 ≤ ret ∧ ret ≤ bytes.length)))
  | .writeCb _ _ _ => isTrue trivial
  | .closeCb => isTrue trivial

/-- An io and the history of the calls on it: whether one of them never returned, the
bytes the system took, and the payloads. -/
structure IoSystem where
  conn : Conn
  blocked : Bool
  accepted : List UInt8
  sent : List UInt8

def IoSystem.start (conn : Conn) : IoSystem where
  conn := conn
  blocked := false
  accepted := []
  sent := []

/-- One call, as long as the thread is not stuck in an earlier one. -/
def IoSystem.step (s : IoSystem) (call : IoCall) : Option IoSystem :=
  if s.blocked then none
  else
    let ran := s.conn.call call
    some
      { conn := ran.conn
        blocked := ran.value.isNone
        accepted := s.accepted ++ ran.effects.flatMap (Effect.accepted call.ret)
        sent := s.sent ++ call.payload }

/-- One call in which the write returns what `write` can return. -/
def IoSystem.legalStep (s : IoSystem) (call : IoCall) : Option IoSystem :=
  if ∀ effect ∈ (s.conn.call call).effects, effect.Legal call.ret then s.step call else none

end LibConn
