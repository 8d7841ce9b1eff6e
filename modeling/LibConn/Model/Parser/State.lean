import LibConn.Model.Http

/-! # The state of `http_parser`

The vendored parser behind `HttpParser`, compiled as the header has it: `HTTP_PARSER_STRICT` is 1.
The locals `p_state` and `nread` of `http_parser_execute` are kept in the parser, where each
`RETURN` puts them. The callbacks are `HttpParser::cbs`: all ten are set, and return 0. -/

namespace LibConn.Parser

open LibConn.Http

/-- `enum http_parser_type` -/
inductive ParserType where
  | request
  | response
  | both
  deriving DecidableEq, Repr

/-- `enum flags`, bit by bit. -/
structure Flags where
  chunked : Bool
  connectionKeepAlive : Bool
  connectionClose : Bool
  connectionUpgrade : Bool
  trailing : Bool
  upgrade : Bool
  skipbody : Bool
  contentlength : Bool
  deriving DecidableEq, Repr

def Flags.none : Flags :=
  ⟨false, false, false, false, false, false, false, false⟩

/-- `enum http_errno`, as far as `http_parser_execute` sets it. -/
inductive HttpErrno where
  | ok | invalidEofState | headerOverflow | closedConnection | invalidVersion | invalidStatus
  | invalidMethod | invalidUrl | lfExpected | invalidHeaderToken | invalidContentLength
  | unexpectedContentLength | invalidChunkSize | invalidConstant | strict
  | invalidTransferEncoding
  deriving DecidableEq, Repr

/-- `enum state` -/
inductive State where
  | dead
  | startReqOrRes | resOrRespH
  | startRes | resH | resHT | resHTT | resHTTP | resHttpMajor | resHttpDot | resHttpMinor
  | resHttpEnd | resFirstStatusCode | resStatusCode | resStatusStart | resStatus
  | resLineAlmostDone
  | startReq | reqMethod | reqSpacesBeforeUrl | reqSchema | reqSchemaSlash
  | reqSchemaSlashSlash | reqServerStart | reqServer | reqServerWithAt | reqPath
  | reqQueryStringStart | reqQueryString | reqFragmentStart | reqFragment
  | reqHttpStart | reqHttpH | reqHttpHT | reqHttpHTT | reqHttpHTTP | reqHttpI | reqHttpIC
  | reqHttpMajor | reqHttpDot | reqHttpMinor | reqHttpEnd | reqLineAlmostDone
  | headerFieldStart | headerField
  | headerValueDiscardWs | headerValueDiscardWsAlmostDone | headerValueDiscardLws
  | headerValueStart | headerValue | headerValueLws
  | headerAlmostDone
  | chunkSizeStart | chunkSize | chunkParameters | chunkSizeAlmostDone
  | headersAlmostDone | headersDone
  | chunkData | chunkDataAlmostDone | chunkDataDone
  | bodyIdentity | bodyIdentityEof
  | messageDone
  deriving DecidableEq, Repr

/-- `PARSING_HEADER`: the states up to `s_headers_done`. -/
def parsingHeader : State → Bool
  | .chunkData | .chunkDataAlmostDone | .chunkDataDone | .bodyIdentity | .bodyIdentityEof
  | .messageDone => false
  | _ => true

/-- `enum header_states` -/
inductive HeaderState where
  | general
  | C | CO | CON
  | matchingConnection | matchingProxyConnection | matchingContentLength
  | matchingTransferEncoding | matchingUpgrade
  | connection | contentLength | contentLengthNum | contentLengthWs | transferEncoding | upgrade
  | matchingTransferEncodingTokenStart | matchingTransferEncodingChunked
  | matchingTransferEncodingToken
  | matchingConnectionTokenStart | matchingConnectionKeepAlive | matchingConnectionClose
  | matchingConnectionUpgrade | matchingConnectionToken
  | transferEncodingChunked
  | connectionKeepAlive | connectionClose | connectionUpgrade
  deriving DecidableEq, Repr

/-- `struct http_parser` -/
structure HttpParser where
  type : ParserType
  flags : Flags
  state : State
  header_state : HeaderState
  index : ℕ
  uses_transfer_encoding : Bool
  allow_chunked_length : Bool
  lenient_http_headers : Bool
  nread : ℕ
  content_length : ℕ
  http_major : ℕ
  http_minor : ℕ
  status_code : ℕ
  method : HttpMethod
  http_errno : HttpErrno
  upgrade : Bool
  deriving DecidableEq, Repr

/-- `http_parser_init` -/
def HttpParser.init (t : ParserType) : HttpParser where
  type := t
  flags := .none
  state :=
    match t with
    | .request => .startReq
    | .response => .startRes
    | .both => .startReqOrRes
  header_state := .general
  index := 0
  uses_transfer_encoding := false
  allow_chunked_length := false
  lenient_http_headers := false
  nread := 0
  content_length := 0
  http_major := 0
  http_minor := 0
  status_code := 0
  method := .delete
  http_errno := .ok
  upgrade := false

/-- `max_header_size`, which stays as it is initialised. -/
def maxHeaderSize : ℕ :=
  80 * 1024

/-- `ULLONG_MAX` -/
def ullongMax : ℕ :=
  2 ^ 64 - 1

/-! ## Characters -/

def CR : UInt8 := 13

def LF : UInt8 := 10

/-- `LOWER` -/
def lower (c : UInt8) : UInt8 :=
  c ||| 0x20

def isAlpha (c : UInt8) : Bool :=
  'a'.toUInt8 ≤ lower c && lower c ≤ 'z'.toUInt8

def isNum (c : UInt8) : Bool :=
  '0'.toUInt8 ≤ c && c ≤ '9'.toUInt8

def isAlphanum (c : UInt8) : Bool :=
  isAlpha c || isNum c

def isMark (c : UInt8) : Bool :=
  c ∈ ascii "-_.!~*'()"

def isUserinfoChar (c : UInt8) : Bool :=
  isAlphanum c || isMark c || decide (c ∈ ascii "%;:&=+$,")

/-- `tokens`, which also lowercases. -/
def tokens (ch : UInt8) : UInt8 :=
  if 'A'.toUInt8 ≤ ch && ch ≤ 'Z'.toUInt8 then ch + 0x20
  else if 'a'.toUInt8 ≤ ch && ch ≤ 'z'.toUInt8 then ch
  else if ch ∈ ascii " !#$%&'*+-.0123456789^_`|~" then ch
  else 0

/-- `STRICT_TOKEN`, which is also `TOKEN`. -/
def token (c : UInt8) : UInt8 :=
  if c = ' '.toUInt8 then 0 else tokens c

/-- `unhex`. The array is initialised up to 127; the zeros behind that are left as they are. -/
def unhex (ch : UInt8) : Option ℕ :=
  if isNum ch then some (ch.toNat - 48)
  else if 'A'.toUInt8 ≤ ch && ch ≤ 'F'.toUInt8 then some (ch.toNat - 55)
  else if 'a'.toUInt8 ≤ ch && ch ≤ 'f'.toUInt8 then some (ch.toNat - 87)
  else if 128 ≤ ch then some 0
  else none

/-- `IS_URL_CHAR`: the bits of `normal_url_char`. -/
def isUrlChar (c : UInt8) : Bool :=
  33 ≤ c && c ≤ 126 && c ≠ '#'.toUInt8 && c ≠ '?'.toUInt8

/-- `IS_HEADER_CHAR` -/
def isHeaderChar (ch : UInt8) : Bool :=
  ch = CR || ch = LF || ch = 9 || (31 < ch && ch ≠ 127)

/-- `method_strings` -/
def methodStrings : HttpMethod → Bytes
  | .delete => ascii "DELETE"
  | .get => ascii "GET"
  | .head => ascii "HEAD"
  | .post => ascii "POST"
  | .put => ascii "PUT"
  | .connect => ascii "CONNECT"
  | .options => ascii "OPTIONS"
  | .trace => ascii "TRACE"
  | .copy => ascii "COPY"
  | .lock => ascii "LOCK"
  | .mkcol => ascii "MKCOL"
  | .move => ascii "MOVE"
  | .propfind => ascii "PROPFIND"
  | .proppatch => ascii "PROPPATCH"
  | .search => ascii "SEARCH"
  | .unlock => ascii "UNLOCK"
  | .bind => ascii "BIND"
  | .rebind => ascii "REBIND"
  | .unbind => ascii "UNBIND"
  | .acl => ascii "ACL"
  | .report => ascii "REPORT"
  | .mkactivity => ascii "MKACTIVITY"
  | .checkout => ascii "CHECKOUT"
  | .merge => ascii "MERGE"
  | .msearch => ascii "M-SEARCH"
  | .notify => ascii "NOTIFY"
  | .subscribe => ascii "SUBSCRIBE"
  | .unsubscribe => ascii "UNSUBSCRIBE"
  | .patch => ascii "PATCH"
  | .purge => ascii "PURGE"
  | .mkcalendar => ascii "MKCALENDAR"
  | .link => ascii "LINK"
  | .unlink => ascii "UNLINK"
  | .source => ascii "SOURCE"

/-! ## URLs -/

/-- `parse_url_char` -/
def parseUrlChar (s : State) (ch : UInt8) : State :=
  if ch = ' '.toUInt8 || ch = CR || ch = LF then .dead
  else if ch = 9 || ch = 12 then .dead
  else
    match s with
    | .reqSpacesBeforeUrl =>
        if ch = '/'.toUInt8 || ch = '*'.toUInt8 then .reqPath
        else if isAlpha ch then .reqSchema
        else .dead
    | .reqSchema =>
        if isAlpha ch then .reqSchema
        else if ch = ':'.toUInt8 then .reqSchemaSlash
        else .dead
    | .reqSchemaSlash => if ch = '/'.toUInt8 then .reqSchemaSlashSlash else .dead
    | .reqSchemaSlashSlash => if ch = '/'.toUInt8 then .reqServerStart else .dead
    | .reqServerWithAt => if ch = '@'.toUInt8 then .dead else server ch
    | .reqServerStart | .reqServer => server ch
    | .reqPath =>
        if isUrlChar ch then .reqPath
        else if ch = '?'.toUInt8 then .reqQueryStringStart
        else if ch = '#'.toUInt8 then .reqFragmentStart
        else .dead
    | .reqQueryStringStart | .reqQueryString =>
        if isUrlChar ch then .reqQueryString
        else if ch = '?'.toUInt8 then .reqQueryString
        else if ch = '#'.toUInt8 then .reqFragmentStart
        else .dead
    | .reqFragmentStart =>
        if isUrlChar ch then .reqFragment
        else if ch = '?'.toUInt8 then .reqFragment
        else if ch = '#'.toUInt8 then .reqFragmentStart
        else .dead
    | .reqFragment =>
        if isUrlChar ch then .reqFragment
        else if ch = '?'.toUInt8 || ch = '#'.toUInt8 then .reqFragment
        else .dead
    | _ => .dead
where
  server (ch : UInt8) : State :=
    if ch = '/'.toUInt8 then .reqPath
    else if ch = '?'.toUInt8 then .reqQueryStringStart
    else if ch = '@'.toUInt8 then .reqServerWithAt
    else if isUserinfoChar ch || ch = '['.toUInt8 || ch = ']'.toUInt8 then .reqServer
    else .dead

/-! ## The end of a message -/

/-- `http_message_needs_eof` -/
def HttpParser.needsEof (parser : HttpParser) : Bool :=
  if parser.type = .request then false
  else if parser.status_code / 100 = 1 || parser.status_code = 204 || parser.status_code = 304 ||
      parser.flags.skipbody then false
  else if parser.uses_transfer_encoding && !parser.flags.chunked then true
  else if parser.flags.chunked || parser.content_length ≠ ullongMax then false
  else true

/-- `http_should_keep_alive` -/
def HttpParser.shouldKeepAlive (parser : HttpParser) : Bool :=
  if 0 < parser.http_major && 0 < parser.http_minor then
    if parser.flags.connectionClose then false else !parser.needsEof
  else
    if !parser.flags.connectionKeepAlive then false else !parser.needsEof

/-- `NEW_MESSAGE` -/
def HttpParser.newMessage (parser : HttpParser) : State :=
  if parser.shouldKeepAlive then
    if parser.type = .request then .startReq else .startRes
  else .dead

end LibConn.Parser
