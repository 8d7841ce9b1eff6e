import LibConn.Model.Parser.State

/-! # The cases of the switch

Each case of `http_parser_execute` that looks at one byte is a function of the parser and the
byte. `REEXECUTE()` calls the function of the state that was just entered. -/

namespace LibConn.Parser

open LibConn.Http

/-- The marks of `http_parser_execute`, named for what they delimit. -/
inductive Field where
  | headerField | headerValue | url | body | status
  deriving DecidableEq, Repr

inductive Notification where
  | messageBegin | headersComplete | messageComplete | chunkHeader | chunkComplete
  deriving DecidableEq, Repr

/-- The macros that a case uses. -/
inductive Op where
  /-- `MARK` -/
  | mark (f : Field)
  /-- `CALLBACK_DATA`, `CALLBACK_DATA_NOADVANCE` -/
  | data (f : Field)
  /-- `CALLBACK_DATA_(body, p - body_mark + 1, p - data)` -/
  | bodyHere
  /-- `CALLBACK_NOTIFY`, `CALLBACK_NOTIFY_NOADVANCE` -/
  | notify (n : Notification)
  deriving DecidableEq, Repr

/-- How a case ends. -/
inductive Turn where
  /-- `break` -/
  | next (parser : HttpParser) (ops : List Op)
  /-- `SET_ERRNO(e)` with `goto error` -/
  | fail (parser : HttpParser) (ops : List Op) (e : HttpErrno)
  /-- `RETURN((p - data) + 1)` -/
  | leave (parser : HttpParser) (ops : List Op)
  /-- an `assert` that fails, or a read outside of an array -/
  | abort
  deriving DecidableEq, Repr

/-- The macros used in front of a `REEXECUTE()`. -/
def Turn.after (earlier : List Op) : Turn → Turn
  | .next parser ops => .next parser (earlier ++ ops)
  | .fail parser ops e => .fail parser (earlier ++ ops) e
  | .leave parser ops => .leave parser (earlier ++ ops)
  | .abort => .abort

/-- `UPDATE_STATE` -/
def HttpParser.enter (parser : HttpParser) (s : State) : HttpParser :=
  { parser with state := s }

/-- `STRICT_CHECK(ch != expected)` in front of `UPDATE_STATE(s); break;` -/
def strictCheck (parser : HttpParser) (ch expected : UInt8) (s : State) : Turn :=
  if ch ≠ expected then .fail parser [] .strict else .next (parser.enter s) []

/-- The index has five bits. -/
def nextIndex (index : ℕ) : ℕ :=
  (index + 1) % 2 ^ 5

/-- What a new message starts with. -/
def HttpParser.begin (parser : HttpParser) : HttpParser :=
  { parser with flags := .none, uses_transfer_encoding := false, content_length := ullongMax }

/-! ## The request line -/

/-- The first `switch (ch)` of `s_start_req`. -/
def firstMethod (ch : UInt8) : Option HttpMethod :=
  ([('A', .acl), ('B', .bind), ('C', .connect), ('D', .delete), ('G', .get), ('H', .head),
    ('L', .lock), ('M', .mkcol), ('N', .notify), ('O', .options), ('P', .post), ('R', .report),
    ('S', .subscribe), ('T', .trace), ('U', .unlock)] : List (Char × HttpMethod)).findSome?
      fun entry => if ch = entry.1.toUInt8 then some entry.2 else none

/-- The `XX` entries of `s_req_method`. -/
def methodEntries : List (HttpMethod × ℕ × Char × HttpMethod) :=
  [(.post, 1, 'U', .put), (.post, 1, 'A', .patch), (.post, 1, 'R', .propfind),
    (.put, 2, 'R', .purge), (.connect, 1, 'H', .checkout), (.connect, 2, 'P', .copy),
    (.mkcol, 1, 'O', .move), (.mkcol, 1, 'E', .merge), (.mkcol, 1, '-', .msearch),
    (.mkcol, 2, 'A', .mkactivity), (.mkcol, 3, 'A', .mkcalendar), (.subscribe, 1, 'E', .search),
    (.subscribe, 1, 'O', .source), (.report, 2, 'B', .rebind), (.propfind, 4, 'P', .proppatch),
    (.lock, 1, 'I', .link), (.unlock, 2, 'S', .unsubscribe), (.unlock, 2, 'B', .unbind),
    (.unlock, 3, 'I', .unlink)]

def otherMethod (method : HttpMethod) (index : ℕ) (ch : UInt8) : Option HttpMethod :=
  methodEntries.findSome? fun entry =>
    if method = entry.1 ∧ index = entry.2.1 ∧ ch = entry.2.2.1.toUInt8 then some entry.2.2.2
    else none

/-- `s_start_req` -/
def startReq (parser : HttpParser) (ch : UInt8) : Turn :=
  if ch = CR || ch = LF then .next parser []
  else
    let parser := parser.begin
    if !isAlpha ch then .fail parser [] .invalidMethod
    else
      match firstMethod ch with
      | none => .fail { parser with method := .delete, index := 1 } [] .invalidMethod
      | some method =>
          .next { parser with method := method, index := 1, state := .reqMethod }
            [.notify .messageBegin]

/-- `s_start_req_or_res` -/
def startReqOrRes (parser : HttpParser) (ch : UInt8) : Turn :=
  if ch = CR || ch = LF then .next parser []
  else
    let parser := parser.begin
    if ch = 'H'.toUInt8 then .next (parser.enter .resOrRespH) [.notify .messageBegin]
    else startReq { parser with type := .request, state := .startReq } ch

/-- `s_res_or_resp_H` -/
def resOrRespH (parser : HttpParser) (ch : UInt8) : Turn :=
  if ch = 'T'.toUInt8 then .next { parser with type := .response, state := .resHT } []
  else if ch ≠ 'E'.toUInt8 then .fail parser [] .invalidConstant
  else
    .next { parser with type := .request, method := .head, index := 2, state := .reqMethod } []

/-- `s_req_method`; the matcher is read with the zero byte at its end. -/
def reqMethod (parser : HttpParser) (ch : UInt8) : Turn :=
  if ch = 0 then .fail parser [] .invalidMethod
  else
    match (methodStrings parser.method ++ [0])[parser.index]? with
    | none => .abort
    | some expected =>
        let index := nextIndex parser.index
        if ch = ' '.toUInt8 && expected = 0 then
          .next { parser with state := .reqSpacesBeforeUrl, index := index } []
        else if ch = expected then .next { parser with index := index } []
        else if ('A'.toUInt8 ≤ ch && ch ≤ 'Z'.toUInt8) || ch = '-'.toUInt8 then
          match otherMethod parser.method parser.index ch with
          | none => .fail parser [] .invalidMethod
          | some method => .next { parser with method := method, index := index } []
        else .fail parser [] .invalidMethod

/-- `UPDATE_STATE(parse_url_char(CURRENT_STATE(), ch))` with the check behind it. -/
def urlChar (parser : HttpParser) (ch : UInt8) (ops : List Op) : Turn :=
  let parser := parser.enter (parseUrlChar parser.state ch)
  if parser.state = .dead then .fail parser ops .invalidUrl else .next parser ops

/-- `s_req_spaces_before_url` -/
def reqSpacesBeforeUrl (parser : HttpParser) (ch : UInt8) : Turn :=
  if ch = ' '.toUInt8 then .next parser []
  else
    urlChar (if parser.method = .connect then parser.enter .reqServerStart else parser) ch
      [.mark .url]

/-- `s_req_schema`, `s_req_schema_slash`, `s_req_schema_slash_slash`, `s_req_server_start` -/
def reqSchema (parser : HttpParser) (ch : UInt8) : Turn :=
  if ch = ' '.toUInt8 || ch = CR || ch = LF then .fail parser [] .invalidUrl
  else urlChar parser ch []

/-- `s_req_server` to `s_req_fragment` -/
def reqUrl (parser : HttpParser) (ch : UInt8) : Turn :=
  if ch = ' '.toUInt8 then .next (parser.enter .reqHttpStart) [.data .url]
  else if ch = CR || ch = LF then
    .next
      { parser with
        http_major := 0
        http_minor := 9
        state := if ch = CR then .reqLineAlmostDone else .headerFieldStart }
      [.data .url]
  else urlChar parser ch []

/-- `s_req_http_start` -/
def reqHttpStart (parser : HttpParser) (ch : UInt8) : Turn :=
  if ch = ' '.toUInt8 then .next parser []
  else if ch = 'H'.toUInt8 then .next (parser.enter .reqHttpH) []
  else if ch = 'I'.toUInt8 && parser.method = .source then .next (parser.enter .reqHttpI) []
  else .fail parser [] .invalidConstant

/-- `s_req_http_major`, `s_res_http_major` -/
def httpMajor (parser : HttpParser) (ch : UInt8) (s : State) : Turn :=
  if !isNum ch then .fail parser [] .invalidVersion
  else .next { parser with http_major := ch.toNat - 48, state := s } []

/-- `s_req_http_dot`, `s_res_http_dot` -/
def httpDot (parser : HttpParser) (ch : UInt8) (s : State) : Turn :=
  if ch ≠ '.'.toUInt8 then .fail parser [] .invalidVersion else .next (parser.enter s) []

/-- `s_req_http_minor`, `s_res_http_minor` -/
def httpMinor (parser : HttpParser) (ch : UInt8) (s : State) : Turn :=
  if !isNum ch then .fail parser [] .invalidVersion
  else .next { parser with http_minor := ch.toNat - 48, state := s } []

/-- `s_req_http_end` -/
def reqHttpEnd (parser : HttpParser) (ch : UInt8) : Turn :=
  if ch = CR then .next (parser.enter .reqLineAlmostDone) []
  else if ch = LF then .next (parser.enter .headerFieldStart) []
  else .fail parser [] .invalidVersion

/-- `UPDATE_STATE(s)` behind `UNLIKELY(ch != LF)` -/
def lfExpected (parser : HttpParser) (ch : UInt8) (s : State) : Turn :=
  if ch ≠ LF then .fail parser [] .lfExpected else .next (parser.enter s) []

/-! ## The status line -/

/-- `s_start_res` -/
def startRes (parser : HttpParser) (ch : UInt8) : Turn :=
  if ch = CR || ch = LF then .next parser []
  else
    let parser := parser.begin
    if ch = 'H'.toUInt8 then .next (parser.enter .resH) [.notify .messageBegin]
    else .fail parser [] .invalidConstant

/-- `s_res_http_end` -/
def resHttpEnd (parser : HttpParser) (ch : UInt8) : Turn :=
  if ch ≠ ' '.toUInt8 then .fail parser [] .invalidVersion
  else .next (parser.enter .resFirstStatusCode) []

/-- `s_res_first_status_code` -/
def resFirstStatusCode (parser : HttpParser) (ch : UInt8) : Turn :=
  if !isNum ch then
    if ch = ' '.toUInt8 then .next parser [] else .fail parser [] .invalidStatus
  else .next { parser with status_code := ch.toNat - 48, state := .resStatusCode } []

/-- `s_res_status` -/
def resStatus (parser : HttpParser) (ch : UInt8) : Turn :=
  if ch = CR then .next (parser.enter .resLineAlmostDone) [.data .status]
  else if ch = LF then .next (parser.enter .headerFieldStart) [.data .status]
  else .next parser []

/-- `s_res_status_start` -/
def resStatusStart (parser : HttpParser) (ch : UInt8) : Turn :=
  let parser := { parser with state := .resStatus, index := 0 }
  if ch = CR || ch = LF then (resStatus parser ch).after [.mark .status]
  else .next parser [.mark .status]

/-- `s_res_status_code`; the code has 16 bits. -/
def resStatusCode (parser : HttpParser) (ch : UInt8) : Turn :=
  if !isNum ch then
    if ch = ' '.toUInt8 then .next (parser.enter .resStatusStart) []
    else if ch = CR || ch = LF then resStatusStart (parser.enter .resStatusStart) ch
    else .fail parser [] .invalidStatus
  else
    let parser :=
      { parser with status_code := (parser.status_code * 10 + (ch.toNat - 48)) % 2 ^ 16 }
    if 999 < parser.status_code then .fail parser [] .invalidStatus else .next parser []

/-! ## The end of the headers -/

/-- `s_message_done` -/
def messageDone (parser : HttpParser) : Turn :=
  let parser := parser.enter parser.newMessage
  if parser.upgrade then .leave parser [.notify .messageComplete]
  else .next parser [.notify .messageComplete]

/-- `s_headers_done` -/
def headersDone (parser : HttpParser) (ch : UInt8) : Turn :=
  if ch ≠ LF then .fail parser [] .strict
  else
    let parser := { parser with nread := 0 }
    let hasBody := parser.flags.chunked ||
      (0 < parser.content_length && parser.content_length ≠ ullongMax)
    if parser.upgrade && (parser.method = .connect || parser.flags.skipbody || !hasBody) then
      .leave (parser.enter parser.newMessage) [.notify .messageComplete]
    else if parser.flags.skipbody then
      .next (parser.enter parser.newMessage) [.notify .messageComplete]
    else if parser.flags.chunked then .next (parser.enter .chunkSizeStart) []
    else if parser.uses_transfer_encoding then
      if parser.type = .request && !parser.lenient_http_headers then
        .fail parser [] .invalidTransferEncoding
      else .next (parser.enter .bodyIdentityEof) []
    else if parser.content_length = 0 then
      .next (parser.enter parser.newMessage) [.notify .messageComplete]
    else if parser.content_length ≠ ullongMax then .next (parser.enter .bodyIdentity) []
    else if !parser.needsEof then
      .next (parser.enter parser.newMessage) [.notify .messageComplete]
    else .next (parser.enter .bodyIdentityEof) []

/-- Both a Transfer-Encoding and a Content-Length, and no setting that allows them. -/
def HttpParser.clashes (parser : HttpParser) : Bool :=
  parser.uses_transfer_encoding && parser.flags.contentlength &&
    if parser.flags.chunked then !parser.allow_chunked_length else !parser.lenient_http_headers

/-- `parser->upgrade` as `s_headers_almost_done` sets it. -/
def HttpParser.asksUpgrade (parser : HttpParser) : Bool :=
  if parser.flags.upgrade && parser.flags.connectionUpgrade then
    parser.type = .request || parser.status_code = 101
  else parser.method = .connect

/-- `s_headers_almost_done` -/
def headersAlmostDone (parser : HttpParser) (ch : UInt8) : Turn :=
  if ch ≠ LF then .fail parser [] .strict
  else if parser.flags.trailing then
    (messageDone (parser.enter .messageDone)).after [.notify .chunkComplete]
  else if parser.clashes then .fail parser [] .unexpectedContentLength
  else
    (headersDone { parser with state := .headersDone, upgrade := parser.asksUpgrade } ch).after
      [.notify .headersComplete]

/-! ## Header fields -/

/-- The inner `switch (c)` of `s_header_field_start`. -/
def firstHeaderState (c : UInt8) : HeaderState :=
  if c = 'c'.toUInt8 then .C
  else if c = 'p'.toUInt8 then .matchingProxyConnection
  else if c = 't'.toUInt8 then .matchingTransferEncoding
  else if c = 'u'.toUInt8 then .matchingUpgrade
  else .general

/-- `s_header_field_start` -/
def headerFieldStart (parser : HttpParser) (ch : UInt8) : Turn :=
  if ch = CR then .next (parser.enter .headersAlmostDone) []
  else if ch = LF then headersAlmostDone (parser.enter .headersAlmostDone) ch
  else if token ch = 0 then .fail parser [] .invalidHeaderToken
  else
    .next
      { parser with
        index := 0
        state := .headerField
        header_state := firstHeaderState (token ch) }
      [.mark .headerField]

/-- The comparison with `name[parser->index]` in the cases `h_matching_*`. -/
def matchName (index : ℕ) (name : Bytes) (c : UInt8) (same done other : HeaderState) :
    HeaderState :=
  if name.length < index || c ≠ name.getD index 0 then other
  else if index = name.length - 1 then done
  else same

/-- The `switch` of `s_header_field` for one character of a name; `none` for an
`assert(0 && "Unknown header_state")`. -/
def fieldChar (parser : HttpParser) (ch : UInt8) : Option HttpParser :=
  let c := token ch
  let index := nextIndex parser.index
  let matching (name : String) (done : HeaderState) : HttpParser :=
    { parser with
      index := index
      header_state := matchName index (ascii name) c parser.header_state done .general }
  match parser.header_state with
  | .general => some parser
  | .C =>
      some { parser with
        index := index, header_state := if c = 'o'.toUInt8 then .CO else .general }
  | .CO =>
      some { parser with
        index := index, header_state := if c = 'n'.toUInt8 then .CON else .general }
  | .CON =>
      some { parser with
        index := index
        header_state :=
          if c = 'n'.toUInt8 then .matchingConnection
          else if c = 't'.toUInt8 then .matchingContentLength
          else .general }
  | .matchingConnection => some (matching "connection" .connection)
  | .matchingProxyConnection => some (matching "proxy-connection" .connection)
  | .matchingContentLength => some (matching "content-length" .contentLength)
  | .matchingTransferEncoding =>
      let parser' := matching "transfer-encoding" .transferEncoding
      some { parser' with
        uses_transfer_encoding :=
          parser.uses_transfer_encoding || parser'.header_state = .transferEncoding }
  | .matchingUpgrade => some (matching "upgrade" .upgrade)
  | .connection | .contentLength | .transferEncoding | .upgrade =>
      some (if ch ≠ ' '.toUInt8 then { parser with header_state := .general } else parser)
  | _ => none

/-- What `s_header_field` does with a byte that is no token. -/
def fieldEnd (parser : HttpParser) (ch : UInt8) : Turn :=
  if ch = ':'.toUInt8 then .next (parser.enter .headerValueDiscardWs) [.data .headerField]
  else .fail parser [] .invalidHeaderToken

/-! ## Header values -/

/-- `s_header_value_start` -/
def headerValueStart (parser : HttpParser) (ch : UInt8) : Turn :=
  let parser := { parser with state := .headerValue, index := 0 }
  let ops : List Op := [.mark .headerValue]
  let c := lower ch
  match parser.header_state with
  | .upgrade =>
      .next { parser with flags := { parser.flags with upgrade := true }, header_state := .general }
        ops
  | .transferEncoding =>
      .next
        { parser with
          header_state :=
            if c = 'c'.toUInt8 then .matchingTransferEncodingChunked
            else .matchingTransferEncodingToken }
        ops
  | .matchingTransferEncodingTokenStart => .next parser ops
  | .contentLength =>
      if !isNum ch then .fail parser ops .invalidContentLength
      else if parser.flags.contentlength then .fail parser ops .unexpectedContentLength
      else
        .next
          { parser with
            flags := { parser.flags with contentlength := true }
            content_length := ch.toNat - 48
            header_state := .contentLengthNum }
          ops
  | .contentLengthWs => .next parser ops
  | .connection =>
      .next
        { parser with
          header_state :=
            if c = 'k'.toUInt8 then .matchingConnectionKeepAlive
            else if c = 'c'.toUInt8 then .matchingConnectionClose
            else if c = 'u'.toUInt8 then .matchingConnectionUpgrade
            else .matchingConnectionToken }
        ops
  | .matchingConnectionTokenStart => .next parser ops
  | _ => .next { parser with header_state := .general } ops

/-- What the loop of `s_header_value` does with a character: `parser` and the local `h_state`. -/
inductive ValueTurn where
  | goOn (parser : HttpParser) (h_state : HeaderState)
  | fail (parser : HttpParser) (e : HttpErrno)
  | abort
  deriving DecidableEq, Repr

/-- `h_content_length_num` -/
def contentLengthNum (parser : HttpParser) (ch : UInt8) : ValueTurn :=
  if ch = ' '.toUInt8 then .goOn parser .contentLengthWs
  else if !isNum ch then
    .fail { parser with header_state := .contentLengthNum } .invalidContentLength
  else
    let t := (parser.content_length * 10 + (ch.toNat - 48)) % 2 ^ 64
    if (ullongMax - 10) / 10 < parser.content_length then
      .fail { parser with header_state := .contentLengthNum } .invalidContentLength
    else .goOn { parser with content_length := t } .contentLengthNum

/-- The flag that `h_connection_*` and `h_transfer_encoding_chunked` stand for. -/
def HttpParser.flag (parser : HttpParser) (h_state : HeaderState) : HttpParser :=
  match h_state with
  | .connectionKeepAlive =>
      { parser with flags := { parser.flags with connectionKeepAlive := true } }
  | .connectionClose => { parser with flags := { parser.flags with connectionClose := true } }
  | .connectionUpgrade => { parser with flags := { parser.flags with connectionUpgrade := true } }
  | .transferEncodingChunked => { parser with flags := { parser.flags with chunked := true } }
  | _ => parser

/-- The `switch (h_state)` of `s_header_value`. -/
def valueChar (parser : HttpParser) (h_state : HeaderState) (ch : UInt8) : ValueTurn :=
  let c := lower ch
  let index := nextIndex parser.index
  let matching (name : String) (done other : HeaderState) : ValueTurn :=
    .goOn { parser with index := index } (matchName index (ascii name) c h_state done other)
  -- a word ends at a comma, and the next one begins
  let word : ValueTurn :=
    match h_state with
    | .matchingTransferEncodingToken =>
        .goOn { parser with index := 0 } .matchingTransferEncodingTokenStart
    | _ => .goOn { parser with index := 0 } .matchingConnectionTokenStart
  match h_state with
  | .general => .goOn parser .general
  | .connection | .transferEncoding => .abort
  | .contentLength =>
      if ch = ' '.toUInt8 then .goOn parser .contentLength else contentLengthNum parser ch
  | .contentLengthNum => contentLengthNum parser ch
  | .contentLengthWs =>
      if ch = ' '.toUInt8 then .goOn parser .contentLengthWs
      else .fail { parser with header_state := .contentLengthWs } .invalidContentLength
  | .matchingTransferEncodingTokenStart =>
      .goOn parser
        (if c = 'c'.toUInt8 then .matchingTransferEncodingChunked
        else if token c ≠ 0 then .matchingTransferEncodingToken
        else if c = ' '.toUInt8 || c = 9 then .matchingTransferEncodingTokenStart
        else .general)
  | .matchingTransferEncodingChunked =>
      matching "chunked" .transferEncodingChunked .matchingTransferEncodingToken
  | .matchingTransferEncodingToken =>
      if ch = ','.toUInt8 then word else .goOn parser .matchingTransferEncodingToken
  | .matchingConnectionTokenStart =>
      .goOn parser
        (if c = 'k'.toUInt8 then .matchingConnectionKeepAlive
        else if c = 'c'.toUInt8 then .matchingConnectionClose
        else if c = 'u'.toUInt8 then .matchingConnectionUpgrade
        else if token c ≠ 0 then .matchingConnectionToken
        else if c = ' '.toUInt8 || c = 9 then .matchingConnectionTokenStart
        else .general)
  | .matchingConnectionKeepAlive =>
      matching "keep-alive" .connectionKeepAlive .matchingConnectionToken
  | .matchingConnectionClose => matching "close" .connectionClose .matchingConnectionToken
  | .matchingConnectionUpgrade => matching "upgrade" .connectionUpgrade .matchingConnectionToken
  | .matchingConnectionToken =>
      if ch = ','.toUInt8 then word else .goOn parser .matchingConnectionToken
  | .transferEncodingChunked =>
      .goOn parser
        (if ch ≠ ' '.toUInt8 then .matchingTransferEncodingToken else .transferEncodingChunked)
  | .connectionKeepAlive | .connectionClose | .connectionUpgrade =>
      if ch = ','.toUInt8 then
        .goOn { parser.flag h_state with index := 0 } .matchingConnectionTokenStart
      else if ch ≠ ' '.toUInt8 then .goOn parser .matchingConnectionToken
      else .goOn parser h_state
  | _ => .goOn (parser.enter .headerValue) .general

/-- `s_header_almost_done` -/
def headerAlmostDone (parser : HttpParser) (ch : UInt8) : Turn :=
  lfExpected parser ch .headerValueLws

/-- `s_header_value_discard_ws` -/
def headerValueDiscardWs (parser : HttpParser) (ch : UInt8) : Turn :=
  if ch = ' '.toUInt8 || ch = 9 then .next parser []
  else if ch = CR then .next (parser.enter .headerValueDiscardWsAlmostDone) []
  else if ch = LF then .next (parser.enter .headerValueDiscardLws) []
  else headerValueStart parser ch

/-- `s_header_value_lws` -/
def headerValueLws (parser : HttpParser) (ch : UInt8) : Turn :=
  if ch = ' '.toUInt8 || ch = 9 then
    headerValueStart
      { parser with
        state := .headerValueStart
        header_state :=
          if parser.header_state = .contentLengthNum then .contentLengthWs
          else parser.header_state }
      ch
  else headerFieldStart ((parser.flag parser.header_state).enter .headerFieldStart) ch

/-- `s_header_value_discard_lws` -/
def headerValueDiscardLws (parser : HttpParser) (ch : UInt8) : Turn :=
  if ch = ' '.toUInt8 || ch = 9 then .next (parser.enter .headerValueDiscardWs) []
  else if parser.header_state = .contentLength then .fail parser [] .invalidContentLength
  else
    (headerFieldStart ((parser.flag parser.header_state).enter .headerFieldStart) ch).after
      [.mark .headerValue, .data .headerValue]

/-! ## Chunks -/

/-- `s_chunk_size_start` -/
def chunkSizeStart (parser : HttpParser) (ch : UInt8) : Turn :=
  if parser.nread ≠ 1 || !parser.flags.chunked then .abort
  else
    match unhex ch with
    | none => .fail parser [] .invalidChunkSize
    | some v => .next { parser with content_length := v, state := .chunkSize } []

/-- `s_chunk_size` -/
def chunkSize (parser : HttpParser) (ch : UInt8) : Turn :=
  if !parser.flags.chunked then .abort
  else if ch = CR then .next (parser.enter .chunkSizeAlmostDone) []
  else
    match unhex ch with
    | none =>
        if ch = ';'.toUInt8 || ch = ' '.toUInt8 then .next (parser.enter .chunkParameters) []
        else .fail parser [] .invalidChunkSize
    | some v =>
        let t := (parser.content_length * 16 + v) % 2 ^ 64
        if (ullongMax - 16) / 16 < parser.content_length then
          .fail parser [] .invalidContentLength
        else .next { parser with content_length := t } []

/-- `s_chunk_parameters` -/
def chunkParameters (parser : HttpParser) (ch : UInt8) : Turn :=
  if !parser.flags.chunked then .abort
  else if ch = CR then .next (parser.enter .chunkSizeAlmostDone) []
  else .next parser []

/-- `s_chunk_size_almost_done` -/
def chunkSizeAlmostDone (parser : HttpParser) (ch : UInt8) : Turn :=
  if !parser.flags.chunked then .abort
  else if ch ≠ LF then .fail parser [] .strict
  else
    let parser := { parser with nread := 0 }
    .next
      (if parser.content_length = 0 then
        { parser with flags := { parser.flags with trailing := true }, state := .headerFieldStart }
      else parser.enter .chunkData)
      [.notify .chunkHeader]

/-- `s_chunk_data_almost_done` -/
def chunkDataAlmostDone (parser : HttpParser) (ch : UInt8) : Turn :=
  if !parser.flags.chunked || parser.content_length ≠ 0 then .abort
  else if ch ≠ CR then .fail parser [] .strict
  else .next (parser.enter .chunkDataDone) [.data .body]

/-- `s_chunk_data_done` -/
def chunkDataDone (parser : HttpParser) (ch : UInt8) : Turn :=
  if !parser.flags.chunked then .abort
  else if ch ≠ LF then .fail parser [] .strict
  else .next { parser with nread := 0, state := .chunkSizeStart } [.notify .chunkComplete]

/-- `s_dead` -/
def deadState (parser : HttpParser) (ch : UInt8) : Turn :=
  if ch = CR || ch = LF then .next parser [] else .fail parser [] .closedConnection

end LibConn.Parser
