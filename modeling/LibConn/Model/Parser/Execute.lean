import LibConn.Model.Parser.Cases

/-! # http_parser_execute

The loop over the data with the inner loops of four states. Pointers into the data are positions,
and `p` in front of `p++` is what a pass hands on. -/

namespace LibConn.Parser

open LibConn.Http

/-- A call through `http_parser_settings`, with what the callbacks of `HttpParser` read of the
parser. -/
inductive Call where
  | messageBegin
  | url (at' : Bytes)
  | status (at' : Bytes) (status_code : ℕ)
  | headerField (at' : Bytes)
  | headerValue (at' : Bytes)
  | headersComplete
  | body (at' : Bytes)
  | messageComplete (method : HttpMethod)
  | chunkHeader
  | chunkComplete
  deriving DecidableEq, Repr

def dataCall (parser : HttpParser) (at' : Bytes) : Field → Call
  | .headerField => .headerField at'
  | .headerValue => .headerValue at'
  | .url => .url at'
  | .body => .body at'
  | .status => .status at' parser.status_code

def notifyCall (parser : HttpParser) : Notification → Call
  | .messageBegin => .messageBegin
  | .headersComplete => .headersComplete
  | .messageComplete => .messageComplete parser.method
  | .chunkHeader => .chunkHeader
  | .chunkComplete => .chunkComplete

/-- The variables of `http_parser_execute`, with the calls that were made. -/
structure Run where
  parser : HttpParser
  marks : Field → Option ℕ
  calls : List Call

/-- The bytes from the mark up to `p`. -/
def between (data : Bytes) (mark p : ℕ) : Bytes :=
  (data.drop mark).take (p - mark)

/-- `CALLBACK_DATA_` for the bytes up to `p` -/
def Run.callbackData (data : Bytes) (p : ℕ) (r : Run) (f : Field) : Run :=
  match r.marks f with
  | none => r
  | some mark =>
      { r with
        calls := r.calls ++ [dataCall r.parser (between data mark p) f]
        marks := Function.update r.marks f none }

def Run.op (data : Bytes) (p : ℕ) (r : Run) : Op → Run
  | .mark f =>
      match r.marks f with
      | none => { r with marks := Function.update r.marks f (some p) }
      | some _ => r
  | .data f => r.callbackData data p f
  | .bodyHere => r.callbackData data (p + 1) .body
  | .notify n => { r with calls := r.calls ++ [notifyCall r.parser n] }

def Run.ops (data : Bytes) (p : ℕ) (r : Run) (ops : List Op) : Run :=
  ops.foldl (Run.op data p) r

/-- How a pass of the loop ends. -/
inductive Pass where
  /-- at the end of the body of the loop, in front of `p++` -/
  | next (r : Run) (p : ℕ)
  | return (r : Run) (n : ℕ)
  | abort

/-- `goto error` -/
def Run.error (r : Run) (e : HttpErrno) (p : ℕ) : Pass :=
  .return { r with parser := { r.parser with http_errno := e } } p

/-- A case that ends at `p`. -/
def Run.turn (data : Bytes) (p : ℕ) (r : Run) : Turn → Pass
  | .next parser ops => .next ({ r with parser := parser }.ops data p ops) p
  | .fail parser ops e => ({ r with parser := parser }.ops data p ops).error e p
  | .leave parser ops => .return ({ r with parser := parser }.ops data p ops) (p + 1)
  | .abort => .abort

/-- `nread += (uint32_t)(V)` -/
def HttpParser.count (parser : HttpParser) (v : ℕ) : HttpParser :=
  { parser with nread := (parser.nread + v % 2 ^ 32) % 2 ^ 32 }

/-- `COUNT_HEADER_SIZE(v)` at `p`, in front of what is left of the case. -/
def Run.countHeaderSize (r : Run) (v p : ℕ) (rest : Run → Pass) : Pass :=
  let r := { r with parser := r.parser.count v }
  if maxHeaderSize < r.parser.nread then r.error .headerOverflow p else rest r

/-! ## Names -/

/-- How the loop of `s_header_field` ends. -/
inductive FieldLoop where
  /-- at a byte that is no token, or at the end of the data -/
  | stopped (parser : HttpParser) (rest : Bytes)
  | abort

/-- The loop of `s_header_field`. `fast` is how far `p` may still go in the loop of `h_general`,
`while (p+1 < pe && TOKEN(p[1]))`. -/
def fieldLoop : ℕ → HttpParser → Bytes → FieldLoop
  | _, parser, [] => .stopped parser []
  | fast, parser, ch :: rest =>
      if token ch = 0 then .stopped parser (ch :: rest)
      else
        match fast with
        | fast + 1 => fieldLoop fast parser rest
        | 0 =>
            match parser.header_state with
            | .general => fieldLoop (min (rest.length + 1) maxHeaderSize - 1) parser rest
            | _ =>
                match fieldChar parser ch with
                | none => .abort
                | some parser => fieldLoop 0 parser rest

/-- `s_header_field` -/
def Run.headerField (data : Bytes) (r : Run) (p : ℕ) : Pass :=
  match fieldLoop 0 r.parser (data.drop p) with
  | .abort => .abort
  | .stopped parser rest =>
      let r := { r with parser := parser }
      match rest with
      | [] =>
          -- `--p` steps back from the end of the data
          r.countHeaderSize (data.length - 1 - p) (data.length - 1) fun r =>
            .next r (data.length - 1)
      | ch :: _ =>
          let stop := data.length - rest.length
          r.countHeaderSize (stop - p) stop fun r => r.turn data stop (fieldEnd r.parser ch)

/-! ## Values -/

/-- How the loop of `s_header_value` ends: the parser, `h_state` and what is left from `p` on. -/
inductive ValueLoop where
  /-- at a CR or LF, or at the end of the data -/
  | stopped (parser : HttpParser) (h_state : HeaderState) (rest : Bytes)
  | fail (parser : HttpParser) (e : HttpErrno) (rest : Bytes)
  | abort

/-- The loop of `s_header_value`. `fast` is `none` in the loop itself; in the loop of `h_general`,
`for (; p != pe; p++)`, it is how far `p` is from `pe`. -/
def valueLoop : Option ℕ → HttpParser → HeaderState → Bytes → ValueLoop
  | _, parser, h_state, [] => .stopped parser h_state []
  | some 0, parser, h_state, _ :: rest =>
      -- `p` is `pe`: the loop around it goes on behind this byte
      valueLoop none parser h_state rest
  | fast, parser, h_state, ch :: rest =>
      if ch = CR || ch = LF then .stopped parser h_state (ch :: rest)
      else if !parser.lenient_http_headers && !isHeaderChar ch then
        .fail parser .invalidHeaderToken (ch :: rest)
      else
        match fast with
        | some left => valueLoop (some (left - 1)) parser h_state rest
        | none =>
            match h_state with
            | .general =>
                valueLoop (some (min (rest.length + 1) maxHeaderSize - 1)) parser .general rest
            | _ =>
                match valueChar parser h_state ch with
                | .goOn parser h_state => valueLoop none parser h_state rest
                | .fail parser e => .fail parser e (ch :: rest)
                | .abort => .abort

/-- `s_header_value` -/
def Run.headerValue (data : Bytes) (r : Run) (p : ℕ) : Pass :=
  match valueLoop none r.parser r.parser.header_state (data.drop p) with
  | .abort => .abort
  | .fail parser e rest => { r with parser := parser }.error e (data.length - rest.length)
  | .stopped parser h_state rest =>
      match rest with
      | [] =>
          { r with parser := { parser with header_state := h_state } }.countHeaderSize
            (data.length - 1 - p) (data.length - 1) fun r => .next r (data.length - 1)
      | ch :: _ =>
          let stop := data.length - rest.length
          let parser := parser.enter .headerAlmostDone
          if ch = CR then
            let r := { r with parser := { parser with header_state := h_state } }
            (r.callbackData data stop .headerValue).countHeaderSize (stop - p) stop fun r =>
              .next r stop
          else
            { r with parser := parser }.countHeaderSize (stop - p) stop fun r =>
              let r := { r with parser := { r.parser with header_state := h_state } }
              let r := r.callbackData data stop .headerValue
              r.turn data stop (headerAlmostDone r.parser ch)

/-! ## Bodies -/

/-- `MARK(body)`, `content_length -= to_read` and `p += to_read - 1` of `s_body_identity` and
`s_chunk_data`, in front of what is left of the case. -/
def Run.readBody (data : Bytes) (r : Run) (p : ℕ) (rest : Run → ℕ → Pass) : Pass :=
  let to_read := min r.parser.content_length (data.length - p)
  if r.parser.content_length = 0 || r.parser.content_length = ullongMax then .abort
  else
    let r := r.op data p (.mark .body)
    rest { r with parser := { r.parser with content_length := r.parser.content_length - to_read } }
      (p + to_read - 1)

/-- `s_body_identity` -/
def Run.bodyIdentity (data : Bytes) (r : Run) (p : ℕ) : Pass :=
  r.readBody data p fun r p =>
    if r.parser.content_length = 0 then
      let r := { r with parser := r.parser.enter .messageDone }.op data p .bodyHere
      r.turn data p (messageDone r.parser)
    else .next r p

/-- `s_chunk_data` -/
def Run.chunkData (data : Bytes) (r : Run) (p : ℕ) : Pass :=
  if !r.parser.flags.chunked then .abort
  else
    r.readBody data p fun r p =>
      if r.parser.content_length = 0 then
        .next { r with parser := r.parser.enter .chunkDataAlmostDone } p
      else .next r p

/-- `s_body_identity_eof` -/
def Run.bodyIdentityEof (data : Bytes) (r : Run) (p : ℕ) : Pass :=
  .next (r.op data p (.mark .body)) (data.length - 1)

/-! ## The loop -/

/-- The cases that look at one byte; `none` for the others. -/
def oneByte (parser : HttpParser) (ch : UInt8) : Option Turn :=
  match parser.state with
  | .dead => some (deadState parser ch)
  | .startReqOrRes => some (startReqOrRes parser ch)
  | .resOrRespH => some (resOrRespH parser ch)
  | .startRes => some (startRes parser ch)
  | .resH => some (strictCheck parser ch 'T'.toUInt8 .resHT)
  | .resHT => some (strictCheck parser ch 'T'.toUInt8 .resHTT)
  | .resHTT => some (strictCheck parser ch 'P'.toUInt8 .resHTTP)
  | .resHTTP => some (strictCheck parser ch '/'.toUInt8 .resHttpMajor)
  | .resHttpMajor => some (httpMajor parser ch .resHttpDot)
  | .resHttpDot => some (httpDot parser ch .resHttpMinor)
  | .resHttpMinor => some (httpMinor parser ch .resHttpEnd)
  | .resHttpEnd => some (resHttpEnd parser ch)
  | .resFirstStatusCode => some (resFirstStatusCode parser ch)
  | .resStatusCode => some (resStatusCode parser ch)
  | .resStatusStart => some (resStatusStart parser ch)
  | .resStatus => some (resStatus parser ch)
  | .resLineAlmostDone => some (strictCheck parser ch LF .headerFieldStart)
  | .startReq => some (startReq parser ch)
  | .reqMethod => some (reqMethod parser ch)
  | .reqSpacesBeforeUrl => some (reqSpacesBeforeUrl parser ch)
  | .reqSchema | .reqSchemaSlash | .reqSchemaSlashSlash | .reqServerStart =>
      some (reqSchema parser ch)
  | .reqServer | .reqServerWithAt | .reqPath | .reqQueryStringStart | .reqQueryString
  | .reqFragmentStart | .reqFragment => some (reqUrl parser ch)
  | .reqHttpStart => some (reqHttpStart parser ch)
  | .reqHttpH => some (strictCheck parser ch 'T'.toUInt8 .reqHttpHT)
  | .reqHttpHT => some (strictCheck parser ch 'T'.toUInt8 .reqHttpHTT)
  | .reqHttpHTT => some (strictCheck parser ch 'P'.toUInt8 .reqHttpHTTP)
  | .reqHttpI => some (strictCheck parser ch 'C'.toUInt8 .reqHttpIC)
  | .reqHttpIC => some (strictCheck parser ch 'E'.toUInt8 .reqHttpHTTP)
  | .reqHttpHTTP => some (strictCheck parser ch '/'.toUInt8 .reqHttpMajor)
  | .reqHttpMajor => some (httpMajor parser ch .reqHttpDot)
  | .reqHttpDot => some (httpDot parser ch .reqHttpMinor)
  | .reqHttpMinor => some (httpMinor parser ch .reqHttpEnd)
  | .reqHttpEnd => some (reqHttpEnd parser ch)
  | .reqLineAlmostDone => some (lfExpected parser ch .headerFieldStart)
  | .headerFieldStart => some (headerFieldStart parser ch)
  | .headerValueDiscardWs => some (headerValueDiscardWs parser ch)
  | .headerValueDiscardWsAlmostDone =>
      some (strictCheck parser ch LF .headerValueDiscardLws)
  | .headerValueDiscardLws => some (headerValueDiscardLws parser ch)
  | .headerValueStart => some (headerValueStart parser ch)
  | .headerValueLws => some (headerValueLws parser ch)
  | .headerAlmostDone => some (headerAlmostDone parser ch)
  | .chunkSizeStart => some (chunkSizeStart parser ch)
  | .chunkSize => some (chunkSize parser ch)
  | .chunkParameters => some (chunkParameters parser ch)
  | .chunkSizeAlmostDone => some (chunkSizeAlmostDone parser ch)
  | .headersAlmostDone => some (headersAlmostDone parser ch)
  | .headersDone => some (headersDone parser ch)
  | .chunkDataAlmostDone => some (chunkDataAlmostDone parser ch)
  | .chunkDataDone => some (chunkDataDone parser ch)
  | .messageDone => some (messageDone parser)
  | .headerField | .headerValue | .chunkData | .bodyIdentity | .bodyIdentityEof => none

/-- The `switch` of the loop. -/
def Run.switch (data : Bytes) (r : Run) (p : ℕ) (ch : UInt8) : Pass :=
  match oneByte r.parser ch with
  | some turn => r.turn data p turn
  | none =>
    match r.parser.state with
    | .headerField => r.headerField data p
    | .headerValue => r.headerValue data p
    | .chunkData => r.chunkData data p
    | .bodyIdentity => r.bodyIdentity data p
    | .bodyIdentityEof => r.bodyIdentityEof data p
    | _ => .abort

/-- The body of the loop. -/
def Run.pass (data : Bytes) (r : Run) (p : ℕ) (ch : UInt8) : Pass :=
  if parsingHeader r.parser.state then
    r.countHeaderSize 1 p fun r => r.switch data p ch
  else r.switch data p ch

/-- A call of `http_parser_execute`: the calls it makes, the number it returns and the parser it
leaves. -/
structure Executed where
  calls : List Call
  nparsed : ℕ
  parser : HttpParser
  deriving DecidableEq

def Field.all : List Field :=
  [.headerField, .headerValue, .url, .body, .status]

/-- Behind the loop: the `assert` about the marks, and the callbacks for what is marked. -/
def Run.finish (data : Bytes) (r : Run) : Option Executed :=
  if 1 < Field.all.countP fun f => (r.marks f).isSome then none
  else
    let r := Field.all.foldl (Run.callbackData data data.length) r
    some ⟨r.calls, data.length, r.parser⟩

/-- `for (p=data; p != data + len; p++)` from `p` on. Each pass takes at least one byte, so the
length of the data is enough `fuel`. -/
def Run.loop (data : Bytes) : ℕ → Run → ℕ → Option Executed
  | 0, r, _ => r.finish data
  | fuel + 1, r, p =>
      match data[p]? with
      | none => r.finish data
      | some ch =>
          match r.pass data p ch with
          | .next r p => Run.loop data fuel r (p + 1)
          | .return r n => some ⟨r.calls, n, r.parser⟩
          | .abort => none

/-- The marks that are set where the data begins inside of what they delimit. -/
def initialMarks (s : State) : Field → Option ℕ
  | .headerField => if s = .headerField then some 0 else none
  | .headerValue => if s = .headerValue then some 0 else none
  | .url =>
      match s with
      | .reqPath | .reqSchema | .reqSchemaSlash | .reqSchemaSlashSlash | .reqServerStart
      | .reqServer | .reqServerWithAt | .reqQueryStringStart | .reqQueryString
      | .reqFragmentStart | .reqFragment => some 0
      | _ => none
  | .status => if s = .resStatus then some 0 else none
  | .body => none

/-- `http_parser_execute` without data: the end of the stream. -/
def executeEof (parser : HttpParser) : Executed :=
  match parser.state with
  | .bodyIdentityEof => ⟨[.messageComplete parser.method], 0, parser⟩
  | .dead | .startReqOrRes | .startRes | .startReq => ⟨[], 0, parser⟩
  | _ => ⟨[], 1, { parser with http_errno := .invalidEofState }⟩

/-- `http_parser_execute`; `none` where an `assert` fails or an array is left. -/
def execute (parser : HttpParser) (data : Bytes) : Option Executed :=
  if parser.http_errno ≠ .ok then some ⟨[], 0, parser⟩
  else if data = [] then some (executeEof parser)
  else Run.loop data data.length ⟨parser, initialMarks parser.state, []⟩ 0

end LibConn.Parser
