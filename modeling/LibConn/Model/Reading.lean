import LibConn.Model.Io

/-! # Reading from an io

`io_read_cb` of `io.c` and what may happen between two of its calls: `read_cb` is set or
unset, reading is enabled, the io is written to or closed. -/

namespace LibConn

open LibConn.Memory

/-- `io_st` with the members that `io_read_cb` uses besides those of `Io`. No `read_buf` is a
`NULL` pointer; `read_cb` says whether it is set. -/
structure ReadingIo where
  conn : Conn
  last_read_time : ℕ
  read_buf : Option Buffer
  read_cb : Bool

/-- What `read` returns: the bytes it stored, none of them at the end of the stream, or `-1`
with `errno`. -/
inductive ReadResult where
  | data (bytes : List UInt8)
  | error (errno : Errno)
  deriving DecidableEq, Repr

def ReadResult.bytes : ReadResult → List UInt8
  | .data bytes => bytes
  | .error _ => []

def ReadResult.nread : ReadResult → ℤ
  | .data bytes => bytes.length
  | .error _ => -1

/-- What the application does with an io, in `read_cb` and elsewhere. -/
inductive ReaderCall where
  | ioSetReadcb (set : Bool)
  | ioReadEnable
  | call (call : IoCall)

namespace ReadingIo

/-- The io that `get_io` returns. -/
def start (fd : ℤ) (malloced : ℕ → UInt8) (loop : Loop) : ReadingIo where
  conn := ⟨getIo fd malloced, loop⟩
  last_read_time := 0
  read_buf := some
    { base := malloced, len := maxIoBufSize, head := 0, tail := 0, maxSize := maxIoBufSize }
  read_cb := false

/-- What is left of the io by a call that ends with `conn`: `free_io` frees `read_buf`. There
is nothing left where the call does not return. -/
def ran {α : Type} (io : ReadingIo) (r : Ran α) : Option ReadingIo :=
  r.value.map fun _ =>
    { io with
      conn := r.conn
      read_buf := if r.conn.io.closed then none else io.read_buf }

def app (io : ReadingIo) : ReaderCall → Option ReadingIo
  | .ioSetReadcb set => some { io with read_cb := set }
  | .ioReadEnable => some { io with conn := ioAdd io.conn .handleEvent eventRead }
  | .call call => io.ran (io.conn.call call)

/-- `io->read_cb(io, buf, nread)`, which makes the calls `does`, and the lines behind it. -/
def readCb (io : ReadingIo) (does : List ReaderCall) : Option ReadingIo :=
  (does.foldlM app io).map fun io =>
    { io with read_buf := io.read_buf.map fun buf => { buf with tail := 0, head := 0 } }

/-- `io_close(io); return;` -/
def close (io : ReadingIo) : Option (ReadingIo × List UInt8) :=
  (io.ran (ioClose io.conn)).map fun io => (io, [])

/-- The buffer once `read` has stored `bytes` behind `tail` and they are counted. -/
def stored (buf : Buffer) (bytes : List UInt8) : Buffer :=
  { buf with base := copy buf.base buf.tail bytes, tail := buf.tail + bytes.length }

/-- `io_read_cb`, with the bytes that it passes to `read_cb`. `none` where `read_buf` is
`NULL`, or `io_close` does not return. -/
def ioReadCb (io : ReadingIo) (r : ReadResult) (does : List ReaderCall) :
    Option (ReadingIo × List UInt8) :=
  let io := { io with last_read_time := io.conn.loop.cur_ms }
  match io.read_buf with
  | none => none
  | some buf =>
    if u64 (r.nread + buf.tail) = buf.len then io.close
    else
      match r with
      | .error errno => if errno = .eagain then some (io, []) else io.close
      | .data [] => io.close
      | .data bytes =>
        let io := { io with read_buf := some (stored buf bytes) }
        if io.read_cb then
          (io.readCb does).map fun io' =>
            (io', slice (stored buf bytes).base buf.tail (stored buf bytes).tail)
        else some (io, [])

end ReadingIo

/-- A call of the application, or one of `io_read_cb` from `handle_event`: in it, `read`
returns `r` and `read_cb` makes the calls `does`. -/
inductive ReadAction where
  | app (call : ReaderCall)
  | read (r : ReadResult) (does : List ReaderCall)

/-- An io with the bytes that `read` has returned for it, the bytes that `read_cb` was
called with, and whether `read_cb` was set when `read` last returned some. -/
structure ReadSystem where
  io : ReadingIo
  received : List UInt8
  delivered : List UInt8
  heard : Bool

namespace ReadSystem

def start (io : ReadingIo) : ReadSystem where
  io := io
  received := []
  delivered := []
  heard := false

/-- `read` returns no more than there is room for, and it is called only while the io waits
for `EVENT_READ`. -/
def step (s : ReadSystem) : ReadAction → Option ReadSystem
  | .app call => (s.io.app call).map fun io => { s with io := io }
  | .read r does =>
    if s.io.conn.io.events &&& eventRead = 0 then none
    else if s.io.read_buf.any fun buf => buf.len - buf.tail < r.bytes.length then none
    else
      (s.io.ioReadCb r does).map fun (io, shown) =>
        { io := io
          received := s.received ++ r.bytes
          delivered := s.delivered ++ shown
          heard := if r.bytes = [] then s.heard else s.io.read_cb }

end ReadSystem

end LibConn
