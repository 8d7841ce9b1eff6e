import LibConn.Model.Http

/-! # A WebSocket session on the server

`on_recv` hands a segment to `HttpHandle::feedRecvData`, whose effects then happen one
after another: writes, and calls of the `WebSocketService`. Each of them can close the
connection, which deletes the handle and its parser while `feedRecvData` is still at
work. -/

namespace LibConn.Http

/-- What a callback of the service does with the channel it is given; `closes` tells
whether the `io_write` of the call closes the connection. -/
inductive ChannelCall where
  /-- `WebSocketChannel::send(data, len, opcode)` -/
  | send (data : Bytes) (opcode : UInt8) (closes : Bool)
  /-- `Channel::close` -/
  | close
  deriving DecidableEq, Repr

/-- A call of a member of `WebSocketService`; `channel` tells whether the channel it is
given is not `NULL`. -/
inductive ServiceCall where
  | onopen (channel : Bool)
  | onmessage (channel : Bool) (msg : Bytes) (opcode : UInt8)
  | onclose (channel : Bool)
  deriving DecidableEq, Repr

/-- Who asked for a write. -/
inductive Writer where
  | handle
  | service
  deriving DecidableEq, Repr

/-- How the world answers an effect: whether the handle's own `io_write` closes the
connection, and what the callback of the service does. -/
structure Answer where
  closes : Bool
  calls : List ChannelCall

/-- An accepted connection whose server has a `WebSocketService`. `m_wsChannel` tells whether
the member is set, and `todo` holds the effects of the `feedRecvData` under way. `misused`
is set when the code goes on with a handle or a parser that are deleted, or leaves
`m_buffer`. The last three members record what has happened: the arguments of `onMessage`,
the calls of the service, and the writes. -/
structure Session (σ : Type) where
  handle : HttpHandle σ
  m_wsChannel : Bool
  todo : List Effect
  closed : Bool
  misused : Bool
  handled : List WebSocket.Message
  calls : List ServiceCall
  written : List (Writer × Bytes)

variable {σ : Type}

def Session.start (lib : Externals σ) (fresh : Uninitialised) (router : HttpRouter) :
    Session σ where
  handle := .setRouter lib fresh router true
  m_wsChannel := false
  todo := []
  closed := false
  misused := false
  handled := []
  calls := []
  written := []

def Session.called (s : Session σ) (call : ServiceCall) : Session σ :=
  { s with calls := s.calls ++ [call] }

/-- `HttpHandle::close`, from the destructor -/
def Session.handleClose (s : Session σ) : Session σ :=
  match s.handle.m_serviceType with
  | .http => s
  | .websocket => if s.handle.m_wsService then s.called (.onclose s.m_wsChannel) else s

/-- `io_close`, whose `close_cb` is `on_close`. -/
def Session.close (s : Session σ) : Session σ :=
  if s.closed then s else { s with closed := true, todo := [] }.handleClose

/-- `io_write` -/
def Session.write (s : Session σ) (writer : Writer) (data : Bytes) (closes : Bool) :
    Session σ :=
  if s.closed then s
  else
    let s := { s with written := s.written ++ [(writer, data)] }
    if closes then s.close else s

/-- `WebSocketChannel::sendFrame` of a channel made with `WS_SERVER`; `has_mask` is always
`false`. -/
def Session.sendFrame (s : Session σ) (writer : Writer) (data : Bytes) (opcode : UInt8)
    (closes : Bool) : Session σ :=
  s.write writer (WebSocket.buildWsFrame data (fun _ => 0) false opcode true) closes

def Session.channelCall (s : Session σ) : ChannelCall → Session σ
  | .send data opcode closes => s.sendFrame .service data opcode closes
  | .close => s.close

def Session.channelCalls (s : Session σ) (calls : List ChannelCall) : Session σ :=
  calls.foldl Session.channelCall s

/-- The handle or one of its members is used. -/
def Session.use (s : Session σ) : Session σ :=
  { s with misused := s.misused || s.closed }

/-- The `onMessage` that `switchWSProtocol` sets. -/
def Session.onMessage (s : Session σ) (answer : Answer) (m : WebSocket.Message) : Session σ :=
  let s := { s with handled := s.handled ++ [m] }
  if m.opcode = 0x1 ∨ m.opcode = 0x2 then
    if s.handle.m_wsService then
      (s.called (.onmessage s.m_wsChannel m.msg m.opcode)).channelCalls answer.calls
    else s
  else if m.opcode = 0x8 then (s.sendFrame .handle m.msg 0x8 answer.closes).use.close
  else if m.opcode = 0x9 then s.sendFrame .handle [] 0xA answer.closes
  else s

/-- One effect of `feedRecvData`. After a response to a plain request the handle is not used
again; after the others `switchWSProtocol` or the loop of the parser goes on. -/
def Session.perform (s : Session σ) (answer : Answer) : Effect → Session σ
  | .routed _ _ => s
  | .invoked _ _ _ => s
  | .sent data =>
      let s := s.write .handle data answer.closes
      match s.handle.m_serviceType with
      | .http => s
      | .websocket => { s.use with m_wsChannel := true }
  | .opened _ => ((s.called (.onopen s.m_wsChannel)).channelCalls answer.calls).use
  | .message m => (s.onMessage answer m).use

inductive SessionAction where
  /-- `on_recv` -/
  | recv (data : Bytes)
  /-- the next effect of the `feedRecvData` under way -/
  | work (answer : Answer)
  /-- the service uses its channel while nothing is received -/
  | channel (call : ChannelCall)
  /-- `io_close` by anybody else: the peer is gone, an error, a timeout -/
  | ioClose

/-- One step; `none` where it is not available, also after undefined behaviour. -/
def Session.step (lib : Externals σ) (s : Session σ) (a : SessionAction) : Option (Session σ) :=
  if s.misused then none
  else
    match a with
    | .recv data =>
      if s.closed || !s.todo.isEmpty then none
      else
        match s.handle.feedRecvData lib data with
        | none => some { s with misused := true }
        | some fed =>
          let s := { s with handle := fed.handle, todo := fed.effects }
          some (if fed.result ≠ (data.length : ℤ) then s.close else s)
    | .work answer =>
      match s.todo with
      | [] => none
      | effect :: rest => some ({ s with todo := rest }.perform answer effect)
    | .channel call =>
      if s.closed || !s.todo.isEmpty || !s.m_wsChannel then none else some (s.channelCall call)
    | .ioClose => if s.closed || !s.todo.isEmpty then none else some s.close

end LibConn.Http
