import LibConn.Shared.OrderedMap
import LibConn.Model.WebSocket

/-! # The HTTP server

One accepted connection: `HttpHandle` feeds what is read to the vendored `http_parser`,
whose callbacks (`HttpParser.cpp`) collect the message, and answers through the handler
that `HttpRouter` holds. What the members of a new object hold is explicit where the
constructors set nothing. -/

namespace LibConn.Http

abbrev Bytes := List UInt8

/-- A string literal of the source. -/
def ascii (s : String) : Bytes :=
  s.toList.map Char.toUInt8

/-- What a callee reads of `s.c_str()`. -/
def cStr (s : Bytes) : Bytes :=
  s.takeWhile (· ≠ 0)

def toLower (b : UInt8) : UInt8 :=
  if 65 ≤ b ∧ b ≤ 90 then b + 32 else b

/-- `strcasecmp(a.c_str(), b.c_str()) == 0` -/
def strcaseEq (a b : Bytes) : Bool :=
  (cStr a).map toLower = (cStr b).map toLower

/-! ## Messages -/

inductive HttpMethod where
  | delete | get | head | post | put | connect | options | trace | copy | lock | mkcol
  | move | propfind | proppatch | search | unlock | bind | rebind | unbind | acl | report
  | mkactivity | checkout | merge | msearch | notify | subscribe | unsubscribe | patch
  | purge | mkcalendar | link | unlink | source
  deriving DecidableEq, Repr

abbrev HttpHeaders := OrderedMap Bytes Bytes

structure HttpRequest where
  url : Bytes
  method : HttpMethod
  headers : HttpHeaders
  body : Bytes
  status_code : ℤ

structure HttpResponse where
  headers : HttpHeaders
  body : Bytes
  status_code : ℤ

/-- `HTTP_HEADER` -/
def httpHeader : Bytes :=
  ascii "HTTP/1.1 200 OK\r\n"

/-- `WS_HEADER` -/
def wsHeader : Bytes :=
  ascii "HTTP/1.1 101 Switching Protocols\r\n"

/-- `%d` of a `size_t`: its low 32 bits as an `int`. -/
def formatInt (n : ℕ) : Bytes :=
  ascii (toString ((n : ℤ).bmod (2 ^ 32)))

/-- `HttpResponse::dump` -/
def HttpResponse.dump (resp : HttpResponse) (header : Bytes) : Bytes :=
  header ++
    resp.headers.entries.flatMap (fun it => it.1 ++ ascii ": " ++ it.2 ++ ascii "\r\n") ++
    ascii "Content-Length: " ++ formatInt resp.body.length ++ ascii "\r\n" ++
    ascii "\r\n" ++ resp.body

/-! ## Router -/

/-- A registered handler: what it leaves in the request and in the response. -/
abbrev HandleFunc := HttpRequest → HttpResponse → HttpRequest × HttpResponse

structure HttpRouter where
  m_path2func : OrderedMap Bytes HandleFunc

/-- `GET_PREFIX` and its siblings; the other methods have no routes. -/
def routePrefix : HttpMethod → Option Bytes
  | .get => some (ascii "GET_")
  | .post => some (ascii "POST_")
  | .put => some (ascii "PUT_")
  | .delete => some (ascii "DELETE_")
  | _ => none

def HttpRouter.new : HttpRouter :=
  ⟨.empty⟩

def HttpRouter.addRouter (router : HttpRouter) (path : Bytes) (func : HandleFunc) :
    HttpRouter :=
  { router with m_path2func := router.m_path2func.set (cStr path) func }

def HttpRouter.get (router : HttpRouter) (path : Bytes) (func : HandleFunc) : HttpRouter :=
  router.addRouter (ascii "GET_" ++ cStr path) func

def HttpRouter.post (router : HttpRouter) (path : Bytes) (func : HandleFunc) : HttpRouter :=
  router.addRouter (ascii "POST_" ++ cStr path) func

def HttpRouter.put (router : HttpRouter) (path : Bytes) (func : HandleFunc) : HttpRouter :=
  router.addRouter (ascii "PUT_" ++ cStr path) func

def HttpRouter.del (router : HttpRouter) (path : Bytes) (func : HandleFunc) : HttpRouter :=
  router.addRouter (ascii "DELETE_" ++ cStr path) func

def HttpRouter.getHandleFunc (router : HttpRouter) (method : HttpMethod) (path : Bytes) :
    Option HandleFunc :=
  (routePrefix method).bind fun methodPrefix =>
    router.m_path2func.find (methodPrefix ++ cStr path)

/-! ## Parser callbacks -/

inductive HttpParserType where
  | request
  | response
  deriving DecidableEq, Repr

/-- `http_parser_state` of `httpdef.h`. -/
inductive HttpParserState where
  | startReqOrRes | messageBegin | url | status | headerField | headerValue
  | headersComplete | chunkHeader | body | chunkComplete | messageComplete | error
  deriving DecidableEq, Repr

/-- The members of `HttpParser` that the callbacks reach through `parser->data`; `req`
and `resp` are the objects the two pointers lead to. -/
structure HttpParserData where
  parser_type : HttpParserType
  url : Bytes
  method : HttpMethod
  header_field : Bytes
  header_value : Bytes
  headers : HttpHeaders
  state : HttpParserState
  req : HttpRequest
  resp : HttpResponse

/-- A call that `http_parser_execute` makes through `http_parser_settings`, with what the
callback reads of the parser. -/
inductive Callback where
  | messageBegin
  | url (at' : Bytes)
  | status (status_code : ℤ)
  | headerField (at' : Bytes)
  | headerValue (at' : Bytes)
  | headersComplete
  | body (at' : Bytes)
  | messageComplete (method : HttpMethod)
  | chunkHeader
  | chunkComplete
  deriving DecidableEq, Repr

/-- `HttpParser::handle_header` -/
def handleHeader (hp : HttpParserData) : HttpParserData :=
  if hp.header_field.length ≠ 0 then
    match hp.parser_type with
    | .request =>
        { hp with
          req := { hp.req with headers := hp.req.headers.set hp.header_field hp.header_value }
          headers := hp.headers.set hp.header_field hp.header_value
          header_field := []
          header_value := [] }
    | .response =>
        { hp with
          resp := { hp.resp with headers := hp.resp.headers.set hp.header_field hp.header_value }
          headers := hp.headers.set hp.header_field hp.header_value
          header_field := []
          header_value := [] }
  else hp

def onMessageBegin (hp : HttpParserData) : HttpParserData :=
  { hp with state := .messageBegin }

def onUrl (hp : HttpParserData) (at' : Bytes) : HttpParserData :=
  { hp with url := hp.url ++ at', state := .url }

def onStatus (hp : HttpParserData) (status_code : ℤ) : HttpParserData :=
  match hp.parser_type with
  | .request => { hp with state := .status, req := { hp.req with status_code := status_code } }
  | .response =>
      { hp with state := .status, resp := { hp.resp with status_code := status_code } }

def onHeaderField (hp : HttpParserData) (at' : Bytes) : HttpParserData :=
  let hp := handleHeader hp
  { hp with header_field := hp.header_field ++ at', state := .headerField }

def onHeaderValue (hp : HttpParserData) (at' : Bytes) : HttpParserData :=
  { hp with header_value := hp.header_value ++ at', state := .headerValue }

/-- The state it leaves is the one `on_message_complete` leaves. -/
def onHeadersComplete (hp : HttpParserData) : HttpParserData :=
  { handleHeader hp with state := .messageComplete }

def onBody (hp : HttpParserData) (at' : Bytes) : HttpParserData :=
  match hp.parser_type with
  | .request => { hp with req := { hp.req with body := hp.req.body ++ at' }, state := .body }
  | .response => { hp with resp := { hp.resp with body := hp.resp.body ++ at' }, state := .body }

def onMessageComplete (hp : HttpParserData) (method : HttpMethod) : HttpParserData :=
  { hp with state := .messageComplete, method := method }

/-- `HttpParser::cbs`; the two chunk callbacks do nothing. -/
def onCallback (hp : HttpParserData) : Callback → HttpParserData
  | .messageBegin => onMessageBegin hp
  | .url at' => onUrl hp at'
  | .status status_code => onStatus hp status_code
  | .headerField at' => onHeaderField hp at'
  | .headerValue at' => onHeaderValue hp at'
  | .headersComplete => onHeadersComplete hp
  | .body at' => onBody hp at'
  | .messageComplete method => onMessageComplete hp method
  | .chunkHeader => hp
  | .chunkComplete => hp

def isComplete (hp : HttpParserData) : Bool :=
  hp.state = .messageComplete

/-- What a call of `http_parser_execute` does: the callbacks it makes, the number it
returns and the parser it leaves. All callbacks return 0. -/
structure Execution (σ : Type) where
  callbacks : List Callback
  nparsed : ℕ
  parser : σ

/-- The code called from outside: `http_parser` with its own state, and `ws_encode_key`. -/
structure Externals (σ : Type) where
  httpParserInit : σ
  httpParserExecute : σ → Bytes → Execution σ
  wsEncodeKey : Bytes → Bytes

structure HttpParser (σ : Type) extends HttpParserData where
  parser : σ

variable {σ : Type}

/-- `HttpParser::feedRecvData` -/
def HttpParser.feedRecvData (lib : Externals σ) (hp : HttpParser σ) (data : Bytes) :
    ℕ × HttpParser σ :=
  let execution := lib.httpParserExecute hp.parser data
  (execution.nparsed,
    { toHttpParserData := execution.callbacks.foldl onCallback hp.toHttpParserData
      parser := execution.parser })

/-! ## Connection handle -/

inductive ServiceType where
  | http
  | websocket
  deriving DecidableEq, Repr

/-- `HttpHandle`; `mParser` is its `m_parser`. Of `m_wsParser` only its `m_buffer` is here,
and whether `onMessage` is set; of `m_wsService` whether it is `NULL`. -/
structure HttpHandle (σ : Type) where
  m_router : HttpRouter
  mParser : HttpParser σ
  m_wsBuffer : Bytes
  m_wsOnMessage : Bool
  m_wsService : Bool
  m_serviceType : ServiceType

/-- What the rest of the program sees of a handle at work. -/
inductive Effect where
  /-- `m_router->getHandleFunc(method, path)` -/
  | routed (method : HttpMethod) (path : Bytes)
  /-- `(*func)(m_request, m_response)` after routing by `method` -/
  | invoked (func : HandleFunc) (method : HttpMethod) (request : HttpRequest)
  /-- `io_send_data` -/
  | sent (data : Bytes)
  /-- `m_wsService->onopen` -/
  | opened (request : HttpRequest)
  /-- `m_wsParser->onMessage` -/
  | message (m : WebSocket.Message)

/-- Members that the constructors leave as they find them. -/
structure Uninitialised where
  parserMethod : HttpMethod
  requestMethod : HttpMethod
  requestStatus : ℤ
  responseStatus : ℤ

/-- `new HttpHandle(io)` followed by `setRouter`. -/
def HttpHandle.setRouter (lib : Externals σ) (fresh : Uninitialised) (router : HttpRouter)
    (ws_service : Bool) : HttpHandle σ where
  m_router := router
  mParser :=
    { parser_type := .request
      url := []
      method := fresh.parserMethod
      header_field := []
      header_value := []
      headers := .empty
      state := .startReqOrRes
      req :=
        { url := [], method := fresh.requestMethod, headers := .empty, body := []
          status_code := fresh.requestStatus }
      resp := { headers := .empty, body := [], status_code := fresh.responseStatus }
      parser := lib.httpParserInit }
  m_wsBuffer := []
  m_wsOnMessage := false
  m_wsService := ws_service
  m_serviceType := .http

def HttpHandle.m_request (handle : HttpHandle σ) : HttpRequest :=
  handle.mParser.req

def HttpHandle.m_response (handle : HttpHandle σ) : HttpResponse :=
  handle.mParser.resp

/-- The handle with new contents in `m_request` and `m_response`. -/
def HttpHandle.withMessages (handle : HttpHandle σ) (messages : HttpRequest × HttpResponse) :
    HttpHandle σ :=
  { handle with
    mParser := { handle.mParser with req := messages.1, resp := messages.2 } }

/-- `HttpHandle::invokeHttpFunc`, with the effects before the value it returns. -/
def HttpHandle.invokeHttpFunc (handle : HttpHandle σ) : ℤ × List Effect × HttpHandle σ :=
  let method := handle.mParser.method
  let path := cStr handle.mParser.url
  match handle.m_router.getHandleFunc method path with
  | none => (-1, [.routed method path], handle)
  | some func =>
      (0, [.routed method path, .invoked func method handle.m_request],
        handle.withMessages (func handle.m_request handle.m_response))

def HttpHandle.sendHttpResponse (handle : HttpHandle σ) : List Effect × HttpHandle σ :=
  match handle.m_serviceType with
  | .http =>
      let (result, effects, handle) := handle.invokeHttpFunc
      if result ≠ 0 then (effects, handle)
      else (effects ++ [.sent (handle.m_response.dump httpHeader)], handle)
  | .websocket => ([.sent (handle.m_response.dump wsHeader)], handle)

/-- `isUpgradeWSProtocol` looks for a header with this property. -/
def isUpgradeHeader (it : Bytes × Bytes) : Bool :=
  strcaseEq it.1 (ascii "Upgrade") && strcaseEq it.2 (ascii "websocket")

def HttpHandle.isUpgradeWSProtocol (handle : HttpHandle σ) : Bool :=
  handle.m_request.headers.entries.any isUpgradeHeader

/-- `SEC_WEBSOCKET_KEY` -/
def secWebsocketKey : Bytes :=
  ascii "Sec-WebSocket-Key"

/-- `SEC_WEBSOCKET_ACCEPT` -/
def secWebsocketAccept : Bytes :=
  ascii "Sec-WebSocket-Accept"

/-- `SEC_WEBSOCKET_PROTOCOL`, in the source's spelling. -/
def secWebsocketProtocol : Bytes :=
  ascii "Sec-WebSocket-Protocl"

/-- The headers that `upgradeWSProtocol` puts into the response. -/
def upgradeHeaders (lib : Externals σ) (request headers : HttpHeaders) : HttpHeaders :=
  let headers := headers.set (ascii "Connection") (ascii "Upgrade")
  let headers := headers.set (ascii "Upgrade") (ascii "websocket")
  let headers := match request.find secWebsocketKey with
    | some key => headers.set secWebsocketAccept (cStr (lib.wsEncodeKey (cStr key)))
    | none => headers
  match request.find secWebsocketProtocol with
  | some protocol => headers.set secWebsocketProtocol protocol
  | none => headers

/-- `HTTP_STATUS_SWITCHING_PROTOCOLS` -/
def statusSwitchingProtocols : ℤ :=
  101

def HttpHandle.upgradeWSProtocol (lib : Externals σ) (handle : HttpHandle σ) :
    List Effect × HttpHandle σ :=
  let response : HttpResponse :=
    { handle.m_response with
      status_code := statusSwitchingProtocols
      headers := upgradeHeaders lib handle.m_request.headers handle.m_response.headers }
  let handle := handle.withMessages (handle.m_request, response)
  { handle with m_serviceType := .websocket }.sendHttpResponse

def HttpHandle.switchWSProtocol (lib : Externals σ) (handle : HttpHandle σ) :
    List Effect × HttpHandle σ :=
  let (effects, handle) := handle.upgradeWSProtocol lib
  (effects ++ (if handle.m_wsService then [.opened handle.m_request] else []),
    { handle with m_wsOnMessage := true })

/-- A call of `feedRecvData`: the value it returns, its effects and the handle it leaves. -/
structure Fed (σ : Type) where
  result : ℤ
  effects : List Effect
  handle : HttpHandle σ

/-- `HttpHandle::feedRecvData`; `none` where the WebSocket decoder does not come back
from its loop in good order. -/
def HttpHandle.feedRecvData (lib : Externals σ) (handle : HttpHandle σ) (data : Bytes) :
    Option (Fed σ) :=
  match handle.m_serviceType with
  | .http =>
      let (nparse, parser) := handle.mParser.feedRecvData lib data
      let handle := { handle with mParser := parser }
      if nparse ≠ data.length then some ⟨-1, [], handle⟩
      else if isComplete handle.mParser.toHttpParserData then
        if handle.isUpgradeWSProtocol then
          let (effects, handle) := handle.switchWSProtocol lib
          some ⟨data.length, effects, handle⟩
        else
          let (effects, handle) := handle.sendHttpResponse
          some ⟨data.length, effects, handle⟩
      else some ⟨data.length, [], handle⟩
  | .websocket =>
      match WebSocket.feedRecvData handle.m_wsOnMessage handle.m_wsBuffer data with
      | .returned messages m_buffer =>
          some ⟨data.length, messages.map .message, { handle with m_wsBuffer := m_buffer }⟩
      | .overrun => none
      | .running => none

/-! ## Connections -/

/-- An accepted connection with what has happened on it so far: the parser's callbacks and
the effects. `on_close` deletes the handle when `on_recv` closes the connection. -/
structure Connection (σ : Type) where
  handle : HttpHandle σ
  closed : Bool
  callbacks : List Callback
  effects : List Effect

/-- `on_accept` -/
def onAccept (lib : Externals σ) (fresh : Uninitialised) (router : HttpRouter)
    (ws_service : Bool) : Connection σ where
  handle := .setRouter lib fresh router ws_service
  closed := false
  callbacks := []
  effects := []

/-- The callbacks that a segment causes. -/
def Connection.callbacksOf (lib : Externals σ) (c : Connection σ) (data : Bytes) :
    List Callback :=
  match c.handle.m_serviceType with
  | .http => (lib.httpParserExecute c.handle.mParser.parser data).callbacks
  | .websocket => []

/-- `on_recv` -/
def onRecv (lib : Externals σ) (c : Connection σ) (data : Bytes) : Option (Connection σ) :=
  if c.closed then none
  else
    (c.handle.feedRecvData lib data).map fun fed =>
      { handle := fed.handle
        closed := fed.result ≠ (data.length : ℤ)
        callbacks := c.callbacks ++ c.callbacksOf lib data
        effects := c.effects ++ fed.effects }

end LibConn.Http
