import LibConn.Verification.Http.Deliveries

/-! # Calls of `feedRecvData`

What one segment does to an HTTP connection when `http_parser` accepts all of it: either
the message is not complete, or it is and the router has or has not a handler. -/

namespace LibConn.Http

variable {σ : Type} {lib : Externals σ} {handle : HttpHandle σ} {data : Bytes}

/-- The callbacks that `http_parser` makes for the data. -/
def HttpHandle.callbacksFor (lib : Externals σ) (handle : HttpHandle σ) (data : Bytes) :
    List Callback :=
  (lib.httpParserExecute handle.mParser.parser data).callbacks

/-- The handle once `http_parser` has seen the data. -/
def HttpHandle.parsed (lib : Externals σ) (handle : HttpHandle σ) (data : Bytes) :
    HttpHandle σ :=
  { handle with mParser := (handle.mParser.feedRecvData lib data).2 }

theorem HttpHandle.parsed_data (handle : HttpHandle σ) :
    (handle.parsed lib data).mParser.toHttpParserData =
      (handle.callbacksFor lib data).foldl onCallback handle.mParser.toHttpParserData :=
  rfl

theorem feedRecvData_http (lib : Externals σ) (data : Bytes)
    (http : handle.m_serviceType = .http) :
    handle.feedRecvData lib data =
      if (lib.httpParserExecute handle.mParser.parser data).nparsed ≠ data.length then
        some ⟨-1, [], handle.parsed lib data⟩
      else if isComplete (handle.parsed lib data).mParser.toHttpParserData then
        if (handle.parsed lib data).isUpgradeWSProtocol then
          some ⟨data.length, ((handle.parsed lib data).switchWSProtocol lib).1,
            ((handle.parsed lib data).switchWSProtocol lib).2⟩
        else some ⟨data.length, (handle.parsed lib data).sendHttpResponse.1,
          (handle.parsed lib data).sendHttpResponse.2⟩
      else some ⟨data.length, [], handle.parsed lib data⟩ := by
  rw [HttpHandle.feedRecvData]
  split
  · rfl
  · next websocket => exact absurd (http.symm.trans websocket) (by decide)

/-- `http_parser` takes the segment for a handle that speaks HTTP. -/
structure Accepts (lib : Externals σ) (handle : HttpHandle σ) (data : Bytes) : Prop where
  http : handle.m_serviceType = .http
  all : (lib.httpParserExecute handle.mParser.parser data).nparsed = data.length

theorem Accepts.feedRecvData (h : Accepts lib handle data) :
    handle.feedRecvData lib data =
      if isComplete (handle.parsed lib data).mParser.toHttpParserData then
        if (handle.parsed lib data).isUpgradeWSProtocol then
          some ⟨data.length, ((handle.parsed lib data).switchWSProtocol lib).1,
            ((handle.parsed lib data).switchWSProtocol lib).2⟩
        else some ⟨data.length, (handle.parsed lib data).sendHttpResponse.1,
          (handle.parsed lib data).sendHttpResponse.2⟩
      else some ⟨data.length, [], handle.parsed lib data⟩ := by
  rw [feedRecvData_http lib data h.http]
  exact if_neg (not_not.mpr h.all)

theorem Accepts.incomplete (h : Accepts lib handle data)
    (hstate : (handle.parsed lib data).mParser.state ≠ .messageComplete) :
    handle.feedRecvData lib data = some ⟨data.length, [], handle.parsed lib data⟩ := by
  rw [h.feedRecvData, isComplete, decide_eq_false hstate]
  rfl

theorem Accepts.complete (h : Accepts lib handle data)
    (hstate : (handle.parsed lib data).mParser.state = .messageComplete)
    (hplain : HttpHeaders.Plain (handle.parsed lib data).mParser.req.headers) :
    handle.feedRecvData lib data =
      some ⟨data.length, (handle.parsed lib data).sendHttpResponse.1,
        (handle.parsed lib data).sendHttpResponse.2⟩ := by
  have hupgrade : ¬ (handle.parsed lib data).isUpgradeWSProtocol = true := by
    intro hany
    obtain ⟨it, hit, htrue⟩ := List.any_eq_true.mp hany
    rw [hplain it hit] at htrue
    cases htrue
  rw [h.feedRecvData, isComplete, decide_eq_true hstate, if_neg hupgrade]
  rfl

theorem sendHttpResponse_unrouted (handle : HttpHandle σ) (hhttp : handle.m_serviceType = .http)
    (hroute : handle.m_router.getHandleFunc handle.mParser.method
      (cStr handle.mParser.url) = none) :
    handle.sendHttpResponse =
      ([.routed handle.mParser.method (cStr handle.mParser.url)], handle) := by
  simp only [HttpHandle.sendHttpResponse, hhttp, HttpHandle.invokeHttpFunc, hroute]
  rfl

theorem sendHttpResponse_routed (handle : HttpHandle σ) {func : HandleFunc}
    (hhttp : handle.m_serviceType = .http)
    (hroute : handle.m_router.getHandleFunc handle.mParser.method
      (cStr handle.mParser.url) = some func) :
    handle.sendHttpResponse =
      ([.routed handle.mParser.method (cStr handle.mParser.url),
          .invoked func handle.mParser.method handle.m_request,
          .sent ((func handle.m_request handle.m_response).2.dump httpHeader)],
        handle.withMessages (func handle.m_request handle.m_response)) := by
  simp only [HttpHandle.sendHttpResponse, hhttp, HttpHandle.invokeHttpFunc, hroute]
  rfl

theorem tidy_setRouter (lib : Externals σ) (fresh : Uninitialised) (router : HttpRouter)
    (ws_service : Bool) :
    Tidy (HttpHandle.setRouter lib fresh router ws_service).mParser.toHttpParserData :=
  ⟨rfl, fun _ hit => absurd hit List.not_mem_nil, isUpgradeHeader_nil [], fun _ => rfl⟩

variable {c t : Connection σ}

theorem onRecv_eq (ht : onRecv lib c data = some t) {fed : Fed σ}
    (hfed : c.handle.feedRecvData lib data = some fed) :
    t = { handle := fed.handle
          closed := fed.result ≠ (data.length : ℤ)
          callbacks := c.callbacks ++ c.callbacksOf lib data
          effects := c.effects ++ fed.effects } := by
  rw [onRecv] at ht
  split_ifs at ht
  rw [hfed] at ht
  exact (Option.some.inj ht).symm

/-! ## The handlers of the test server -/

/-- Members of new objects in cleared memory. -/
def Uninitialised.zeroed : Uninitialised where
  parserMethod := .delete
  requestMethod := .delete
  requestStatus := 0
  responseStatus := 0

/-- `GET /ping` as `http_parser` reports it. -/
def ping : Delivery where
  method := .get
  url := [ascii "/ping"]
  headers := []
  body := .contentLength []

/-- The headers that its handlers set. -/
def closingHeaders (headers : HttpHeaders) : HttpHeaders :=
  (headers.set (ascii "Content-Type") (ascii "text/plain")).set
    (ascii "Connection") (ascii "close")

def pingHandler : HandleFunc :=
  fun req resp =>
    (req, { resp with headers := closingHeaders resp.headers, body := resp.body ++ ascii "pong" })

def echoHandler : HandleFunc :=
  fun req resp =>
    (req, { resp with headers := closingHeaders resp.headers, body := resp.body ++ cStr req.body })

end LibConn.Http
