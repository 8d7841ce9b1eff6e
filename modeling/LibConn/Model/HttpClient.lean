import LibConn.Model.Http
import LibConn.Shared.Run

/-! # The HTTP clients

`HttpClient::send` waits for the response in a loop around `recv`, `async_send` has `onread`
called with what comes. Both feed an `HttpParser` and go by its `isComplete`. -/

namespace LibConn.Http

variable {σ : Type}

/-- `new HttpParser(parser_type)` with `initHttpResponse(resp)`. -/
def HttpParser.new (lib : Externals σ) (fresh : Uninitialised) (parser_type : HttpParserType)
    (resp : HttpResponse) : HttpParser σ where
  parser_type := parser_type
  url := []
  method := fresh.parserMethod
  header_field := []
  header_value := []
  headers := .empty
  state := .startReqOrRes
  req :=
    { url := [], method := fresh.requestMethod, headers := .empty, body := []
      status_code := fresh.requestStatus }
  resp := resp
  parser := lib.httpParserInit

def HttpParser.initHttpResponse (hp : HttpParser σ) (resp : HttpResponse) : HttpParser σ :=
  { hp with resp := resp }

/-! ## The client that waits -/

/-- What a pass of the loop in `exec` meets: the bytes that `recv_data` gives, none when it
returns 0 or -1, and for that case `isTimeout` and `errno == EINTR`. -/
structure Recv where
  data : Bytes
  timedOut : Bool
  interrupted : Bool
  deriving DecidableEq, Repr

/-- `exec` in its loop: the parser, the callbacks that were made since `initHttpResponse`, and
the value returned once the loop is left. -/
structure Exec (σ : Type) where
  mParser : HttpParser σ
  callbacks : List Callback
  result : Option ℤ

def Exec.return (e : Exec σ) (result : ℤ) : Exec σ :=
  { e with result := some result }

/-- `while(!m_parser->isComplete())`, with the `return 0` behind it. -/
def Exec.untilComplete (e : Exec σ) : Exec σ :=
  if isComplete e.mParser.toHttpParserData then e.return 0 else e

/-- `m_parser->feedRecvData` -/
def Exec.feed (lib : Externals σ) (e : Exec σ) (data : Bytes) : ℕ × Exec σ :=
  let (nparse, parser) := e.mParser.feedRecvData lib data
  (nparse,
    { e with
      mParser := parser
      callbacks := e.callbacks ++ (lib.httpParserExecute e.mParser.parser data).callbacks })

/-- One pass of the loop; `none` once it is left. -/
def Exec.recv (lib : Externals σ) (e : Exec σ) (r : Recv) : Option (Exec σ) :=
  if e.result.isSome then none
  else if r.data = [] then
    if r.timedOut then some (e.return 0)
    else if r.interrupted then some e.untilComplete
    else some (e.return (-1))
  else
    let (nparse, e) := e.feed lib r.data
    if nparse ≠ r.data.length then some (e.return (-1)) else some e.untilComplete

structure HttpClient (σ : Type) where
  mParser : HttpParser σ

/-- `initHttpResponse` is called by `exec` only; `resp` is whatever it was. -/
def HttpClient.new (lib : Externals σ) (fresh : Uninitialised) (resp : HttpResponse) :
    HttpClient σ :=
  ⟨.new lib fresh .response resp⟩

/-- `exec` where it enters its loop. -/
def HttpClient.exec (client : HttpClient σ) (resp : HttpResponse) : Exec σ where
  mParser := client.mParser.initHttpResponse resp
  callbacks := []
  result := none

/-- A call of `send`: the object behind `resp`, whether the request gets out in time, and the
passes of the loop. -/
structure SendCall where
  resp : HttpResponse
  sent : Bool
  recvs : List Recv

/-- A call of `send` that has returned. -/
structure Sent (σ : Type) where
  result : ℤ
  resp : HttpResponse
  client : HttpClient σ

/-- `none` for a call that does not take these passes or goes on after them. -/
def HttpClient.send (lib : Externals σ) (client : HttpClient σ) (call : SendCall) :
    Option (Sent σ) :=
  if call.sent then
    (Run.exec (Exec.recv lib) (client.exec call.resp) call.recvs).bind fun e =>
      e.result.map fun result => ⟨result, e.mParser.resp, ⟨e.mParser⟩⟩
  else some ⟨-1, call.resp, client⟩

/-! ## The client with a callback -/

/-- A task of `async_send` whose request is on its way: its parser, `io->keepalive`, whether
the channel is closed, and the responses given to `cb`; `callbacks` as for `Exec`. -/
structure HttpTask (σ : Type) where
  parser : HttpParser σ
  callbacks : List Callback
  keepalive : Bool
  closed : Bool
  cb : List HttpResponse

/-- `new HttpResponse()`; the status is not set. -/
def HttpResponse.new (fresh : Uninitialised) : HttpResponse where
  headers := .empty
  body := []
  status_code := fresh.responseStatus

/-- `async_send` and `doTask`; `get_io` leaves 0 in `keepalive`. -/
def HttpTask.new (lib : Externals σ) (fresh : Uninitialised) : HttpTask σ where
  parser := .new lib fresh .response (.new fresh)
  callbacks := []
  keepalive := false
  closed := false
  cb := []

def HttpResponse.getHeader (resp : HttpResponse) (key : Bytes) : Bytes :=
  (resp.headers.find key).getD []

/-- `channel->onread` -/
def HttpTask.onread (lib : Externals σ) (task : HttpTask σ) (data : Bytes) : HttpTask σ :=
  let (nparse, parser) := task.parser.feedRecvData lib data
  let task :=
    { task with
      parser := parser
      callbacks := task.callbacks ++ (lib.httpParserExecute task.parser.parser data).callbacks }
  if nparse ≠ data.length then { task with closed := true }
  else if isComplete task.parser.toHttpParserData then
    let resp := task.parser.resp
    let task := { task with cb := task.cb ++ [resp] }
    if task.keepalive && resp.getHeader (ascii "Connection") = ascii "keep-alive" then task
    else { task with closed := true }
  else task

inductive TaskAction where
  /-- `onread` -/
  | read (data : Bytes)
  /-- `io_close` by anybody else: the peer is gone, an error -/
  | ioClose
  deriving DecidableEq, Repr

/-- One event of the channel; `none` when it is closed. -/
def HttpTask.step (lib : Externals σ) (task : HttpTask σ) (a : TaskAction) :
    Option (HttpTask σ) :=
  if task.closed then none
  else
    match a with
    | .read data => some (task.onread lib data)
    | .ioClose => some { task with closed := true }

end LibConn.Http
