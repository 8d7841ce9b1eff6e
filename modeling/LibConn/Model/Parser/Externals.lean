import LibConn.Model.Parser.Execute

/-! # The parser behind libconn

`HttpParser` of libconn holds an `http_parser` and gets its callbacks. -/

namespace LibConn.Parser

open LibConn.Http

/-- The functions of `HttpParser::cbs`, with what they read of the parser. Of the status they read
the code alone. -/
def Call.callback : Call → Callback
  | .messageBegin => .messageBegin
  | .url at' => .url at'
  | .status _ status_code => .status status_code
  | .headerField at' => .headerField at'
  | .headerValue at' => .headerValue at'
  | .headersComplete => .headersComplete
  | .body at' => .body at'
  | .messageComplete method => .messageComplete method
  | .chunkHeader => .chunkHeader
  | .chunkComplete => .chunkComplete

/-- `http_parser_init` with `HTTP_BOTH`, and `http_parser_execute`. An `assert` that fails ends the
program; `execute_of_reached` says that none does. -/
def vendored (wsEncodeKey : Bytes → Bytes) : Externals HttpParser where
  httpParserInit := .init .both
  httpParserExecute parser data :=
    match execute parser data with
    | some executed => ⟨executed.calls.map Call.callback, executed.nparsed, executed.parser⟩
    | none => ⟨[], 0, parser⟩
  wsEncodeKey := wsEncodeKey

end LibConn.Parser
