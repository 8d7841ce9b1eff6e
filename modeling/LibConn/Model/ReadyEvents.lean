import LibConn.Model.Io
import LibConn.Shared.Run

/-! # Events of an established io

What `process_pending_event` runs for a TCP io that is connected (`connect` and `accept` are
zero), and the calls of `io_write` in between. -/

namespace LibConn

/-- `handle_event` up to the test for `EVENT_READ`. -/
def handleEventWrite (c : Conn) (revents : Mask) (r : WriteResult) (now : ℕ) : Ran Unit :=
  if c.io.events &&& eventWrite ≠ 0 ∧ revents &&& eventWrite ≠ 0 then ioWriteCb c r now
  else ⟨c, some (), []⟩

/-- The test for `EVENT_READ`. -/
def handleEventReads (c : Conn) (revents : Mask) : Bool :=
  c.io.events &&& eventRead ≠ 0 ∧ revents &&& eventRead ≠ 0

/-- What `io->cb(io)` does up to `io_read_cb`, and whether it calls that. -/
structure Dispatched where
  ran : Ran Unit
  io_read_cb : Bool

/-- `if (cur->cb) cur->cb(cur);`; `none` for the callback of an SSL handshake, which a TCP io
does not have. -/
def dispatchEvent (c : Conn) (revents : Mask) (r : WriteResult) (now : ℕ) : Option Dispatched :=
  match c.io.cb with
  | none => some ⟨⟨c, some (), []⟩, false⟩
  | some .handleEvent =>
    let ran := handleEventWrite c revents r now
    some ⟨ran, ran.value.isSome && handleEventReads ran.conn revents⟩
  | some .ioWriteCb => some ⟨ioWriteCb c r now, false⟩
  | some .sslServerHandshake => none

/-- What happens to the io: a call of `io_write`, or the event that it can be written to. -/
inductive WriteAction where
  | write (payload : Payload) (r : WriteResult) (now : ℕ)
  | ready (r : WriteResult) (now : ℕ)

/-- What the write of the action returns, if it comes to that. -/
def WriteAction.result : WriteAction → WriteResult
  | .write _ r _ => r
  | .ready r _ => r

def Conn.act (c : Conn) : WriteAction → Option (Ran Unit)
  | .write payload r now =>
    some ((ioWrite c payload.bytes r now).andThen fun c => ⟨c, some (), []⟩)
  | .ready r now => (dispatchEvent c eventWrite r now).map Dispatched.ran

/-- One action that returns, with a write that returns what `write` can return. -/
def Conn.writeStep (c : Conn) (a : WriteAction) : Option Conn :=
  (c.act a).bind fun ran =>
    if (∀ effect ∈ ran.effects, effect.Legal a.result.ret) ∧ ran.value.isSome then some ran.conn
    else none

end LibConn
