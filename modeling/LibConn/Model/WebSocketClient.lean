import LibConn.Model.HttpClient
import LibConn.Model.LoopThread

/-! # WebSocketClient

The client over the io of its channel. `io.c` and the WebSocket parser call back into the
client, and the client calls back the user, who may use the client again: what the library
has to do behind such a callback waits on `stack`. The client runs on one thread. -/

namespace LibConn.Http

/-! ## The request -/

/-- `url_st` -/
structure Url where
  scheme : Bytes
  host : Bytes
  port : ℤ
  path : Bytes
  deriving DecidableEq, Repr

/-- What stands before and behind the first `"://"`, which `strstr` looks for. -/
def splitScheme : Bytes → Option (Bytes × Bytes)
  | [] => none
  | b :: rest =>
      if (ascii "://").isPrefixOf (b :: rest) then some ([], rest.drop 2)
      else (splitScheme rest).map fun (scheme, behind) => (b :: scheme, behind)

/-- What stands before and behind the first `c`, which `strchr` looks for. -/
def splitChar (c : UInt8) : Bytes → Option (Bytes × Bytes)
  | [] => none
  | b :: rest =>
      if b = c then some ([], rest)
      else (splitChar c rest).map fun (before, behind) => (b :: before, behind)

/-- `strtol` to base 10, which stops at the ends of `long`. -/
def strtol (s : Bytes) : ℤ :=
  let s := s.dropWhile fun b => b = 32 || (9 ≤ b && b ≤ 13)
  let digits (s : Bytes) : ℕ :=
    (s.takeWhile fun b => 48 ≤ b && b ≤ 57).foldl (fun n b => 10 * n + (b.toNat - 48)) 0
  match s with
  | 45 :: rest => max (-(digits rest : ℤ)) (-2 ^ 63)
  | 43 :: rest => min (digits rest : ℤ) (2 ^ 63 - 1)
  | s => min (digits s : ℤ) (2 ^ 63 - 1)

/-- `atoi`: what `strtol` returns, as `int`. -/
def atoi (s : Bytes) : ℤ :=
  int32 (strtol s)

/-- `strcpy` to an array of `size` bytes. There is no room for the `'\0'` behind a longer text. -/
def strcpy (size : ℕ) (src : Bytes) : Option Bytes :=
  if src.length < size then some src else none

/-- `HttpRequest::parseUrl`, with the members it leaves in `u`; `u` is what `malloc` left. There is
no result where a `strcpy` writes behind its array. -/
def parseUrl (url : Bytes) (u : Url) : Option (ℤ × Url) := do
  let temp ← strcpy 1024 (cStr url)
  match splitScheme temp with
  | none => return (-1, u)
  | some (scheme, host_ptr) =>
    let u := { u with scheme := ← strcpy 8 scheme }
    match splitChar 58 host_ptr with
    | none => return (0, u)
    | some (host, host_ptr) =>
      let u := { u with host := ← strcpy 32 host }
      match splitChar 47 host_ptr with
      | some (port, path) => return (0, { u with port := atoi port, path := ← strcpy 256 path })
      | none => return (0, { u with port := atoi host_ptr, path := ← strcpy 256 (ascii "/") })

/-- `base64_chars` -/
def base64Chars : Bytes :=
  ascii "ABCDEFGHIJKLMNOPQRSTUVWXYZabcdefghijklmnopqrstuvwxyz0123456789+/"

/-- `char_array_4` of `char_array_3`, as characters. -/
def base64Group (b₀ b₁ b₂ : UInt8) : Bytes :=
  [(b₀ &&& 0xFC) >>> 2, ((b₀ &&& 0x03) <<< 4) + ((b₁ &&& 0xF0) >>> 4),
    ((b₁ &&& 0x0F) <<< 2) + ((b₂ &&& 0xC0) >>> 6), b₂ &&& 0x3F].map
      fun i => base64Chars.getD i.toNat 0

/-- `base64_encode` -/
def base64Encode : Bytes → Bytes
  | b₀ :: b₁ :: b₂ :: rest => base64Group b₀ b₁ b₂ ++ base64Encode rest
  | [b₀, b₁] => (base64Group b₀ b₁ 0).take 3 ++ ascii "="
  | [b₀] => (base64Group b₀ 0 0).take 2 ++ ascii "=="
  | [] => []

/-- The headers that `sendHttpRequest` puts into the request. -/
def requestHeaders (rand_key : Fin 16 → UInt8) (headers : HttpHeaders) : HttpHeaders :=
  let headers := headers.set (ascii "Connection") (ascii "Upgrade")
  let headers := headers.set (ascii "Upgrade") (ascii "websocket")
  let headers := headers.set secWebsocketKey (base64Encode (List.ofFn rand_key))
  headers.set (ascii "Sec-WebSocket-Version") (ascii "13")

/-- `str` of `sendHttpRequest` -/
def requestText (u : Url) (headers : HttpHeaders) : Bytes :=
  ascii "GET /" ++ cStr u.path ++ ascii " HTTP/1.1\r\n" ++ ascii "Host: " ++ cStr u.host ++
    (if u.port ≠ 80 then ascii ":" ++ ascii (toString u.port) else []) ++ ascii "\r\n" ++
    headers.entries.flatMap (fun it => it.1 ++ ascii ": " ++ it.2 ++ ascii "\r\n") ++
    ascii "\r\n"

/-! ## The client -/

/-- The code called from outside, with `getError` of the parser. -/
structure ClientLib (σ : Type) extends Externals σ where
  httpErrno : σ → Bool

/-- `ws_state` -/
inductive WsState where
  | connecting
  | connected
  | upgrading
  | opened
  | closed
  deriving DecidableEq, Repr

/-- A call of `onopen`, `onmessage` or `onclose`. For `onmessage` it is the frame that it is
made for; the user sees `msg`. -/
inductive ClientCall where
  | onopen
  | onmessage (m : WebSocket.Message)
  | onclose
  deriving DecidableEq, Repr

/-- What follows `io_close` where `onclose` was called in it. -/
inductive After where
  | nothing
  /-- the end of `WebSocketClient::close` -/
  | clientClose
  /-- the end of `sendHttpRequest`, and `io_read_enable` for the io of this session -/
  | upgrading (session : ℕ)
  deriving DecidableEq, Repr

/-- A callback of the user that runs, with what the library goes on with behind it. -/
inductive UserFrame where
  /-- `onopen`, and the bytes behind the response -/
  | onopen (data : Bytes)
  /-- `onmessage`, in the loop of the parser of this session, and the buffer after `erase` -/
  | onmessage (parser : ℕ) (rest : Bytes)
  | onclose (after : After)
  deriving DecidableEq, Repr

/-- A frame handed over by the parser of a session, and whether the connection of that session
was open. -/
structure Handled where
  session : ℕ
  m : WebSocket.Message
  isOpen : Bool
  deriving DecidableEq, Repr

/-- A request that was given to `sendData`. -/
structure Request where
  session : ℕ
  headers : HttpHeaders

/-- A call of `onopen`, and the callbacks in which its response was reported. -/
structure Opening where
  session : ℕ
  callbacks : List Callback

/-- `WebSocketClient`. A session is what begins when `open` makes a channel; `session` counts
them, and `parser` is the session in which `m_wsParser` was made. `m_channel` and `lambdas`
tell whether the channel and its callbacks are set; of its io, `connect_timer` tells whether
that is set. The client is `stuck` in a call that never returns, and `misused` after undefined
behaviour. The rest is history: whether the connection of the session has failed or ended,
the sockets that a refused `open` left behind, the user's callbacks with their sessions, the
requests, what `status_code` of the response held before any callback, the callbacks of
`m_httpParser`, the calls of `onopen`, the frames handed over, and the bytes given to `io_write`. -/
structure WebSocketClient (σ : Type) where
  m_wsState : WsState
  u : Url
  headers : HttpHeaders
  m_httpParser : HttpParser σ
  m_wsBuffer : Bytes
  m_wsOnMessage : Bool
  parser : ℕ
  m_channel : Bool
  lambdas : Bool
  conn : Conn
  connect : Bool
  connect_timer : Bool
  session : ℕ
  stack : List UserFrame
  stuck : Bool
  misused : Bool
  lost : Bool
  leaked : List ℤ
  calls : List (ℕ × ClientCall)
  requests : List Request
  status : ℤ
  callbacks : List Callback
  openings : List Opening
  handled : List Handled
  written : List Bytes

/-- What a call of `onconnect` and of the functions around it meets. -/
structure Connecting where
  getpeername : Bool
  sslConnect : Bool
  rand_key : Fin 16 → UInt8
  fresh : Uninitialised
  write : WriteResult
  now : ℕ

/-- What a call of `open` meets: what `malloc` left in `u`, what `socket` and `connect` return,
and the io that `get_io` returns, unless that is `NULL`. The parts of its url fit their arrays. -/
structure OpenCall where
  url : Bytes
  malloced : Url
  socket : ℤ
  io : Option (ℕ → UInt8)
  connect : LoopThread.ConnectResult
  connecting : Connecting
  fits : (parseUrl url malloced).isSome = true

/-- The members of `u` behind `parseUrl`, whose result `open` drops. -/
def OpenCall.u (o : OpenCall) : Url :=
  ((parseUrl o.url o.malloced).get o.fits).2

variable {σ : Type}

/-- `WebSocketClient::WebSocketClient` with the callbacks set; the io and the parsers are
those that the members will point to. -/
def WebSocketClient.new (lib : ClientLib σ) (fresh : Uninitialised) (loop : Loop) :
    WebSocketClient σ where
  m_wsState := .closed
  u := { scheme := [], host := [], port := 0, path := [] }
  headers := .empty
  m_httpParser := .new lib.toExternals fresh .response (.new fresh)
  m_wsBuffer := []
  m_wsOnMessage := false
  parser := 0
  m_channel := false
  lambdas := false
  conn := ⟨getIo (-1) fun _ => 0, loop⟩
  connect := false
  connect_timer := false
  session := 0
  stack := []
  stuck := false
  misused := false
  lost := false
  leaked := []
  calls := []
  requests := []
  status := fresh.responseStatus
  callbacks := []
  openings := []
  handled := []
  written := []

/-- The channel has its callbacks, and its connection has neither failed nor ended. -/
def WebSocketClient.live (s : WebSocketClient σ) : Bool :=
  s.lambdas && !s.lost

def WebSocketClient.call (s : WebSocketClient σ) (session : ℕ) (c : ClientCall) :
    WebSocketClient σ :=
  { s with calls := s.calls ++ [(session, c)] }

def WebSocketClient.push (s : WebSocketClient σ) (frame : UserFrame) : WebSocketClient σ :=
  { s with stack := frame :: s.stack }

/-! ## The io of the channel -/

def WebSocketClient.ioReadEnable (s : WebSocketClient σ) : WebSocketClient σ :=
  { s with conn := ioAdd s.conn .handleEvent eventRead }

def WebSocketClient.goOn (s : WebSocketClient σ) : After → WebSocketClient σ
  | .nothing => s
  | .clientClose => { s with m_wsState := .closed }
  | .upgrading session =>
      let s := { s with m_wsState := .upgrading }
      if s.session = session then s.ioReadEnable else s

/-- `on_close`; `onclose` of the channel is set with its other callbacks. -/
def WebSocketClient.onClose (s : WebSocketClient σ) (after : After) : WebSocketClient σ :=
  if s.lambdas then
    ({ s with m_wsState := .closed, lost := true }.call s.session .onclose).push (.onclose after)
  else s.goOn after

/-- A call on the io has returned, or never does. What `io_close` does behind `close_cb`
concerns the io only and is done at once. -/
def WebSocketClient.ran {α : Type} (s : WebSocketClient σ) (r : Ran α) (after : After) :
    WebSocketClient σ :=
  let s := { s with conn := r.conn }
  match r.value with
  | none => { s with stuck := true }
  | some _ => if r.effects.contains .closeCb then s.onClose after else s.goOn after

/-- `io_close`. When it never returns, the end of the connection is known all the same. -/
def WebSocketClient.ioClose (s : WebSocketClient σ) (after : After) : WebSocketClient σ :=
  let r := LibConn.ioClose s.conn
  if r.value.isNone then { s.ran r after with lost := s.lost || s.lambdas } else s.ran r after

def WebSocketClient.ioWrite (s : WebSocketClient σ) (data : Bytes) (r : WriteResult)
    (now : ℕ) (after : After) : WebSocketClient σ :=
  { s with written := s.written ++ [data] }.ran (LibConn.ioWrite s.conn data r now) after

/-- `io_write_cb`. It gets stuck where a write fails, or where it finds the mutex held. -/
def WebSocketClient.ioWriteCb (s : WebSocketClient σ) (r : WriteResult) (now : ℕ) :
    WebSocketClient σ :=
  let ran := LibConn.ioWriteCb s.conn r now
  if ran.value.isNone then
    { s.ran ran .nothing with lost := s.lost || s.lambdas && !s.conn.io.write_mutex }
  else s.ran ran .nothing

/-! ## Opening -/

/-- `sendHttpRequest` -/
def WebSocketClient.sendHttpRequest (lib : ClientLib σ) (s : WebSocketClient σ) (w : Connecting) :
    WebSocketClient σ :=
  let headers := requestHeaders w.rand_key s.headers
  let s :=
    { s with
      headers := headers
      m_httpParser := .new lib.toExternals w.fresh .response (.new w.fresh)
      m_wsBuffer := []
      m_wsOnMessage := false
      parser := s.session
      status := w.fresh.responseStatus
      callbacks := []
      requests := s.requests ++ [Request.mk s.session headers] }
  s.ioWrite (requestText s.u headers) w.write w.now (.upgrading s.session)

/-- `m_channel->onconnect` -/
def WebSocketClient.onconnect (lib : ClientLib σ) (s : WebSocketClient σ) (w : Connecting) :
    WebSocketClient σ :=
  { s with m_wsState := .connected }.sendHttpRequest lib w

/-- `io_connect_cb`; `ssl_ctx` of the io is `NULL`. -/
def WebSocketClient.ioConnectCb (lib : ClientLib σ) (s : WebSocketClient σ) (w : Connecting) :
    WebSocketClient σ :=
  if w.getpeername = false then s.ioClose .nothing
  else
    let s := { s with conn := ioDel s.conn eventWrite }
    if s.conn.io.type = .ssl ∧ w.sslConnect = false then
      { s with conn := freeIo s.conn, lost := true }
    else s.onconnect lib w

/-- `Channel::startConnect`, which drops what `io_connect` returns. -/
def WebSocketClient.startConnect (lib : ClientLib σ) (s : WebSocketClient σ)
    (r : LoopThread.ConnectResult) (w : Connecting) : WebSocketClient σ :=
  match r with
  | .failed => { s with lost := true }
  | .connected => s.ioConnectCb lib w
  | .inProgress =>
      { s with
        connect := true
        connect_timer := true
        conn := ioAdd s.conn .handleEvent eventWrite }

/-- The type that `open` gives the io, or that the scheme is not supported. -/
def ioType (u : Url) : Option IoType :=
  if strcaseEq u.scheme (ascii "ws") then some .tcp
  else if strcaseEq u.scheme (ascii "wss") then some .ssl
  else none

/-- The socket is still there when `open` has failed. -/
def WebSocketClient.leak (s : WebSocketClient σ) (socket : ℤ) : WebSocketClient σ :=
  { s with leaked := s.leaked ++ if socket < 0 then [] else [socket] }

/-- A new channel over the io that `get_io` returned. -/
def WebSocketClient.newChannel (s : WebSocketClient σ) (socket : ℤ) (malloced : ℕ → UInt8) :
    WebSocketClient σ :=
  { s with
    -- the io of a connection that is still open is left with a channel that is deleted
    misused := s.misused || s.live
    m_channel := true
    lambdas := false
    conn :=
      { s.conn with io := { getIo socket malloced with write_cb := true, close_cb := true } }
    connect := false
    connect_timer := false
    lost := false
    session := s.session + 1 }

/-- `WebSocketClient::open`; its `headers` are not used. -/
def WebSocketClient.open (lib : ClientLib σ) (s : WebSocketClient σ) (o : OpenCall) :
    ℤ × WebSocketClient σ :=
  if s.m_wsState ≠ .closed then (-1, s)
  else
    let u := o.u
    let s := { s with u := u, headers := .empty }
    match o.io with
    | none => (-1, s.leak o.socket)
    | some malloced =>
      let s := s.newChannel o.socket malloced
      match ioType u with
      | none => (-1, s.leak o.socket)
      | some type =>
        let s :=
          { s with
            conn := { s.conn with io := { s.conn.io with type := type } }
            lambdas := true
            m_wsState := .connecting }
        -- `connect` fails on the descriptor -1
        (0, s.startConnect lib (if o.socket < 0 then .failed else o.connect) o.connecting)

/-! ## Using it -/

/-- `WebSocketClient::send`, where `rand` gave the mask. -/
def WebSocketClient.send (s : WebSocketClient σ) (msg : Bytes) (opcode : UInt8)
    (mask : WebSocket.MaskKey) (r : WriteResult) (now : ℕ) : WebSocketClient σ :=
  if s.m_wsState ≠ .opened then s
  else
    match WebSocket.buildFrame msg opcode mask with
    | none => s
    | some data => s.ioWrite data r now .nothing

/-- `WebSocketClient::close` -/
def WebSocketClient.close (s : WebSocketClient σ) : WebSocketClient σ :=
  if s.m_channel then s.ioClose .clientClose else s.goOn .clientClose

/-! ## Reading -/

/-- The parser hands over a frame. -/
def WebSocketClient.handle (s : WebSocketClient σ) (m : WebSocket.Message) :
    WebSocketClient σ :=
  let frame : Handled :=
    { session := s.parser
      m := m
      isOpen := decide (s.session = s.parser) && !s.conn.io.closed }
  { s with handled := s.handled ++ [frame] }

/-- The loop of `m_wsParser->feedRecvData`, up to the next call of `onmessage`. Without
`onMessage` it never ends. -/
def WebSocketClient.parserLoop (s : WebSocketClient σ) : WebSocketClient σ :=
  match WebSocket.turn s.m_wsBuffer with
  | .wait => s
  | .overrun => { s with misused := true }
  | .frame m unmasked consumed =>
      if s.m_wsOnMessage then
        ((s.handle m).call s.parser (.onmessage m)).push
          (.onmessage s.parser (unmasked.drop consumed))
      else { s with stuck := true }

/-- `if (m_wsState == WS_STATE_OPENED && size > 0)` and what is behind it. -/
def WebSocketClient.feedRest (s : WebSocketClient σ) (data : Bytes) : WebSocketClient σ :=
  if s.m_wsState = .opened ∧ data ≠ [] then
    { s with m_wsBuffer := s.m_wsBuffer ++ data }.parserLoop
  else s

/-- `WS_STATE_OPENED` is reached. -/
def WebSocketClient.opened (s : WebSocketClient σ) : WebSocketClient σ :=
  { s with m_wsState := .opened, openings := s.openings ++ [Opening.mk s.session s.callbacks] }

/-- `m_httpParser->feedRecvData` -/
def WebSocketClient.parsed (lib : ClientLib σ) (s : WebSocketClient σ) (data : Bytes) :
    WebSocketClient σ :=
  { s with
    m_httpParser := (s.m_httpParser.feedRecvData lib.toExternals data).2
    callbacks := s.callbacks ++ (lib.httpParserExecute s.m_httpParser.parser data).callbacks }

/-- `m_channel->onread` -/
def WebSocketClient.onread (lib : ClientLib σ) (s : WebSocketClient σ) (data : Bytes) :
    WebSocketClient σ :=
  if s.m_wsState = .upgrading then
    let nparse := (s.m_httpParser.feedRecvData lib.toExternals data).1
    let s := s.parsed lib data
    let parser := s.m_httpParser
    if nparse ≠ data.length ∧ lib.httpErrno parser.parser = true then s.ioClose .nothing
    else if isComplete parser.toHttpParserData then
      if parser.resp.status_code ≠ 101 then s.ioClose .nothing
      else if (parser.resp.headers.find secWebsocketAccept).isNone then s.ioClose .nothing
      else (s.opened.call s.session .onopen).push (.onopen (data.drop nparse))
    else s
  else s.feedRest data

/-- The library goes on behind a callback of the user. -/
def WebSocketClient.ret (s : WebSocketClient σ) : UserFrame → WebSocketClient σ
  | .onopen data => { s with m_wsOnMessage := true }.feedRest data
  | .onmessage parser rest =>
      -- the loop runs on the parser it began with
      if s.parser = parser then { s with m_wsBuffer := rest }.parserLoop
      else { s with misused := true }
  | .onclose after => s.goOn after

/-! ## Steps -/

/-- A call of the user, the return of a callback, or an event of the loop. The timers of
`setPingInterval` and `closeAfterTime` call `send` and `close`. -/
inductive ClientAction where
  | open (o : OpenCall)
  | send (msg : Bytes) (opcode : UInt8) (mask : WebSocket.MaskKey) (r : WriteResult) (now : ℕ)
  | close
  | ret
  /-- the io is ready for writing, and connects -/
  | connectReady (w : Connecting)
  | connectTimeout
  /-- the io is ready for reading, and gives bytes -/
  | recv (data : Bytes)
  /-- the io is ready for reading: the peer has closed, an error, a full buffer -/
  | readEnds
  /-- the io is ready for writing, and is connected -/
  | writeReady (r : WriteResult) (now : ℕ)

/-- The loop runs, and the io is there. -/
def WebSocketClient.idle (s : WebSocketClient σ) : Bool :=
  s.stack.isEmpty && s.m_channel && !s.conn.io.closed

/-- `handle_event` calls `io_read_cb`. -/
def WebSocketClient.readable (s : WebSocketClient σ) : Bool :=
  s.idle && decide (s.conn.io.cb = some .handleEvent) &&
    decide (s.conn.io.events &&& eventRead ≠ 0)

def WebSocketClient.writable (s : WebSocketClient σ) : Bool :=
  s.idle && decide (s.conn.io.events &&& eventWrite ≠ 0)

/-- One step; `none` where it is not available, also when nothing more is known. -/
def WebSocketClient.step (lib : ClientLib σ) (s : WebSocketClient σ) (a : ClientAction) :
    Option (WebSocketClient σ) :=
  if s.stuck || s.misused then none
  else
    match a with
    | .open o => some (s.open lib o).2
    | .send msg opcode mask r now => some (s.send msg opcode mask r now)
    | .close => some s.close
    | .ret =>
      match s.stack with
      | [] => none
      | frame :: rest => some ({ s with stack := rest }.ret frame)
    | .connectReady w =>
      if s.writable && s.connect then some ({ s with connect := false }.ioConnectCb lib w) else none
    | .connectTimeout => if s.idle && s.connect_timer then some (s.ioClose .nothing) else none
    | .recv data => if s.readable && data ≠ [] then some (s.onread lib data) else none
    | .readEnds => if s.readable then some (s.ioClose .nothing) else none
    | .writeReady r now => if s.writable && !s.connect then some (s.ioWriteCb r now) else none

end LibConn.Http
