import LibConn.Model.Io

/-! # What is told about the writes of an io

The history of the calls on an io, with what `write_cb` is shown and with the closes that
the state of the write buffer does not ask for. -/

namespace LibConn

open LibConn.Memory

/-- The bytes that `write_cb` is shown: `buf` points into what the caller passed or into the
write buffer, and `writebytes` is an `int`. -/
def Effect.reported (payload : List UInt8) (write_buf : Buffer) : Effect → List UInt8
  | .writeCb .payload offset writebytes => (payload.drop offset).take (int32 writebytes).toNat
  | .writeCb .writeBuf offset writebytes =>
      slice write_buf.base offset (offset + (int32 writebytes).toNat)
  | _ => []

/-- The range that `write_cb` is shown lies in the payload, or between `head` and `tail`. -/
def Effect.inside (payload : List UInt8) (write_buf : Buffer) : Effect → Bool
  | .writeCb .payload offset writebytes =>
      0 ≤ int32 writebytes ∧ offset + (int32 writebytes).toNat ≤ payload.length
  | .writeCb .writeBuf offset writebytes =>
      0 ≤ int32 writebytes ∧ write_buf.head ≤ offset ∧
        offset + (int32 writebytes).toNat ≤ write_buf.tail
  | _ => true

def IoCall.isWrite : IoCall → Bool
  | .write _ _ _ => true
  | _ => false

/-- The write of the call fails, and not only for now. -/
def IoCall.fatal : IoCall → Bool
  | .write _ r _ => r.ret = -1 && !r.errno.again
  | .writeCb r _ => r.ret = -1 && !r.errno.again
  | .close => false

/-- An io with the bytes that `write_cb` was shown, whether all of them lay where they
should, and whether an `io_write` has closed the io with room for what would wait. -/
structure WriteHistory where
  sys : IoSystem
  reported : List UInt8
  inside : Bool
  unfounded : Bool

namespace WriteHistory

def start (conn : Conn) : WriteHistory where
  sys := .start conn
  reported := []
  inside := true
  unfounded := false

/-- What waits in the buffer and what a call leaves unsent of its payload. -/
def waiting (s : WriteHistory) (call : IoCall) : ℕ :=
  let write_buf := s.sys.conn.io.write_buf
  let accepted := (s.sys.conn.call call).effects.flatMap (Effect.accepted call.ret)
  write_buf.tail - write_buf.head + (call.payload.length - accepted.length)

/-- The call is an `io_write` that closes the io although the buffer is large enough. -/
def closesEarly (s : WriteHistory) (call : IoCall) : Bool :=
  call.isWrite && !s.sys.conn.io.closed && (s.sys.conn.call call).conn.io.closed &&
    s.waiting call ≤ s.sys.conn.io.write_buf.maxSize

def step (s : WriteHistory) (call : IoCall) : Option WriteHistory :=
  let write_buf := s.sys.conn.io.write_buf
  let effects := (s.sys.conn.call call).effects
  (s.sys.legalStep call).map fun sys =>
    { sys := sys
      reported := s.reported ++ effects.flatMap (Effect.reported call.payload write_buf)
      inside := s.inside && effects.all (Effect.inside call.payload write_buf)
      unfounded := s.unfounded || s.closesEarly call }

/-- The same without writes that fail for good. -/
def stepAlive (s : WriteHistory) (call : IoCall) : Option WriteHistory :=
  if call.fatal then none else s.step call

end WriteHistory

/-- A `write_cb` is set. -/
def Conn.reporting (c : Conn) : Conn :=
  { c with io := { c.io with write_cb := true } }

end LibConn
