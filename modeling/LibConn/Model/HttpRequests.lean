import LibConn.Model.WebSocketClient

/-! # The request of the HTTP client

The text that `HttpClient` makes of an `HttpRequest` and of the members of its `u`. -/

namespace LibConn.Http

/-- `HttpClient::parseUrl`, a copy of `HttpRequest::parseUrl`. -/
def HttpClient.parseUrl (url : Bytes) (u : Url) : Option (ℤ × Url) := do
  let temp ← strcpy 1024 (cStr url)
  match splitScheme temp with
  | none => return (-1, u)
  | some (scheme, host_ptr) =>
    let u := { u with scheme := ← strcpy 8 scheme }
    match splitChar 58 host_ptr with
    | none => return (0, u)
    | some (host, host_ptr) =>
      let u := { u with host := ← strcpy 32 host }
      match splitChar 47 host_ptr with
      | some (port, path) => return (0, { u with port := atoi port, path := ← strcpy 256 path })
      | none => return (0, { u with port := atoi host_ptr, path := ← strcpy 256 (ascii "/") })

/-- `fill_http_header`, appended to `data`. -/
def fillHttpHeader (req : HttpRequest) (u : Url) (data : Bytes) : Bytes :=
  let data :=
    if req.method = .get then data ++ ascii "GET /" ++ cStr u.path ++ ascii " HTTP/1.1\r\n"
    else if req.method = .post then data ++ ascii "POST /" ++ cStr u.path ++ ascii " HTTP/1.1\r\n"
    else data
  data ++ ascii "Host: " ++ cStr u.host ++ ascii "\r\n" ++
    ascii "User-Agent: libconn\r\n" ++
    ascii "Accept: */*\r\n" ++
    ascii "Content-Type: application/x-www-form-urlencoded\r\n" ++
    ascii "Content-Length: " ++ formatInt req.body.length ++ ascii "\r\n" ++
    ascii "\r\n"

def fillHttpBody (req : HttpRequest) (data : Bytes) : Bytes :=
  if req.body = [] then data else data ++ req.body

def makeHttpRequest (req : HttpRequest) (u : Url) : Bytes :=
  let data := fillHttpHeader req u []
  if req.method = .post then fillHttpBody req data else data

end LibConn.Http
