import LibConn.Verification.Http.Requests
import LibConn.Verification.Http.Responses
import LibConn.Verification.Parser.Replies

/-! # Exchanges

What one side of libconn writes, the other side has in the end, in whatever parts it arrives: the
client writes requests that the server's parser reads, and the server writes responses that the
client's parser reads. -/

namespace LibConn.Parser

open LibConn.Http

/-! ## What the server writes -/

theorem fieldLines_eq (fields : List (Bytes × Bytes)) :
    fieldLines fields = (fields.map fieldLine).flatMap (· ++ [13, 10]) := by
  rw [List.flatMap_map]
  rfl

theorem plain_append_nil {fields : List (Bytes × Bytes)} (h : ∀ field ∈ fields, Plain field) :
    ∀ field ∈ fields ++ [], Plain field := by
  rwa [List.append_nil]

/-- A body with its size as `%d` prints it. -/
def printedContent (body : Bytes) (hbody : body.length < 2 ^ 31) : Content :=
  .sized Http.contentLength (formatInt body.length) body 0 (by decide)
    ((decimal_formatInt_iff _).mpr hbody) (hbody.le.trans (by decide))

/-- The response that `dump` writes, for fields that mean nothing to the parser. -/
def dumped (resp : HttpResponse) (hplain : ∀ field ∈ resp.headers.entries, Plain field)
    (hbody : resp.body.length < 2 ^ 31) : Response where
  version := .oneOne
  code := 200
  digits := ascii "200"
  reason := ascii "OK"
  entity :=
    { before := resp.headers.entries
      content := printedContent resp.body hbody
      after := []
      plain := plain_append_nil hplain }
  decimal := by decide
  code_le := by decide
  unbroken := forall_mem_of_all (by decide)
  framed := Content.noConfusion

theorem dumped_text (resp : HttpResponse) (hplain : ∀ field ∈ resp.headers.entries, Plain field)
    (hbody : resp.body.length < 2 ^ 31) :
    (dumped resp hplain hbody).text = resp.dump httpHeader := by
  have hfields : (dumped resp hplain hbody).entity.fields = resp.written := by
    simp [dumped, printedContent, Entity.fields, Content.fields, HttpResponse.written]
  have hstatus : statusLineText .oneOne (ascii "200") (ascii "OK") = statusLine ++ [13, 10] := by
    decide
  rw [Response.text, Response.head, hfields, fieldLines_eq, dump_eq, spell, List.flatMap_cons,
    ← hstatus]
  rfl

theorem Response.text_length (response : Response) :
    response.text.length = response.head.length + 2 + response.entity.content.text.length := by
  rw [Response.text, List.length_append, List.length_append]
  exact (Nat.add_assoc _ _ _).symm

/-! ## What the client writes -/

/-- The fields of a request in front of its Content-Length. -/
def namedFields (host : Bytes) : List (Bytes × Bytes) :=
  [(ascii "Host", host), (ascii "User-Agent", ascii "libconn"), (ascii "Accept", ascii "*/*"),
    (ascii "Content-Type", ascii "application/x-www-form-urlencoded")]

theorem plain_namedFields {host : Bytes} (hhost : Legible host) :
    ∀ field ∈ namedFields host, Plain field := by
  simp only [namedFields, List.forall_mem_cons]
  exact ⟨plain_of_name (by decide) hhost, plain_of_isPlain (by decide),
    plain_of_isPlain (by decide), plain_of_isPlain (by decide), List.forall_mem_nil _⟩

theorem requestLineText_eq {method : HttpMethod} (h : method = .get ∨ method = .post) (u : Url) :
    requestLineText method ('/'.toUInt8 :: cStr u.path) .oneOne =
      requestLine method u ++ [13, 10] := by
  have hname : methodStrings method = httpMethodStr method := by
    rcases h with rfl | rfl <;> decide
  have hversion : Version.oneOne.text = ascii "HTTP/1.1" := by decide
  have hspaced : ascii " HTTP/1.1" = ' '.toUInt8 :: ascii "HTTP/1.1" := by decide
  have hslash : ascii " /" = [' '.toUInt8, '/'.toUInt8] := by decide
  rw [requestLineText, requestLine, hname, hversion, hspaced, hslash]
  simp [CR, LF]

/-- A request line for the method, and the body that is announced. -/
def SendsBody (req : HttpRequest) : Prop :=
  req.method = .get ∧ req.body = [] ∨ req.method = .post

theorem SendsBody.method {req : HttpRequest} (h : SendsBody req) :
    req.method = .get ∨ req.method = .post :=
  h.imp_left And.left

theorem SendsBody.ne_connect {req : HttpRequest} (h : SendsBody req) : req.method ≠ .connect := by
  rcases h.method with hmethod | hmethod <;> rw [hmethod] <;> decide

theorem SendsBody.sent {req : HttpRequest} (h : SendsBody req) : sentBody req = req.body :=
  (sentBody_eq_iff h.method).mpr h

/-- The request that `makeHttpRequest` writes. -/
def made (req : HttpRequest) (u : Url) (hsends : SendsBody req) (hbody : req.body.length < 2 ^ 31)
    (hpath : (cStr u.path).all visible = true) (hhost : Legible (cStr u.host)) : Request where
  method := req.method
  target := '/'.toUInt8 :: cStr u.path
  version := .oneOne
  entity :=
    { before := namedFields (cStr u.host)
      content := printedContent req.body hbody
      after := []
      plain := plain_append_nil (plain_namedFields hhost) }
  ne_connect := hsends.ne_connect
  targets := targets_slash hsends.ne_connect hpath

theorem made_text {req : HttpRequest} {u : Url} (hsends : SendsBody req)
    (hbody : req.body.length < 2 ^ 31) (hpath : (cStr u.path).all visible = true)
    (hhost : Legible (cStr u.host)) :
    (made req u hsends hbody hpath hhost).text = makeHttpRequest req u := by
  have hfields : (made req u hsends hbody hpath hhost).entity.fields = writtenFields req u := by
    simp [made, printedContent, Entity.fields, Content.fields, writtenFields, plainFields,
      namedFields]
  rw [Request.text, Request.head, hfields, fieldLines_eq, makeHttpRequest_eq, firstLines,
    if_pos hsends.method, hsends.sent, List.singleton_append, spell, List.flatMap_cons,
    ← requestLineText_eq hsends.method]
  rfl

theorem Request.text_length (request : Request) :
    request.text.length = request.head.length + 2 + request.entity.content.text.length := by
  rw [Request.text, List.length_append, List.length_append]
  exact (Nat.add_assoc _ _ _).symm

theorem length_spell_le (lines : List Bytes) (body : Bytes) :
    body.length ≤ (spell lines body).length := by
  rw [spell, List.length_append, List.length_cons, List.length_cons]
  omega

/-! ## What the client holds -/

/-- `feedRecvData` with one chunk after another. -/
def feedAll {σ : Type} (lib : Externals σ) (hp : Http.HttpParser σ) (chunks : List Bytes) :
    Http.HttpParser σ :=
  chunks.foldl (fun hp data => (hp.feedRecvData lib data).2) hp

theorem feedAll_data {σ : Type} (lib : Externals σ) (hp : Http.HttpParser σ)
    (chunks : List Bytes) :
    (feedAll lib hp chunks).toHttpParserData =
      (lib.reported hp.parser chunks).foldl onCallback hp.toHttpParserData := by
  induction chunks generalizing hp with
  | nil => rfl
  | cons data chunks ih =>
      rw [feedAll, List.foldl_cons]
      refine (ih _).trans ?_
      rw [Externals.reported, Externals.reported, Externals.outputs, List.flatMap_cons,
        List.foldl_append]
      rfl

theorem Carries.held {reply : Reply} {response : Response} (h : Carries reply response)
    {hp : HttpParserData} (htype : hp.parser_type = .response) :
    (reply.callbacks.foldl onCallback hp).state = .messageComplete ∧
      (reply.callbacks.foldl onCallback hp).resp.status_code = response.code ∧
      (reply.callbacks.foldl onCallback hp).resp.body =
        hp.resp.body ++ response.entity.content.body := by
  refine ⟨?_, ?_, ?_⟩
  · rw [Reply.callbacks, List.foldl_append]
    rfl
  · rw [Reply.stored_status htype (List.prefix_refl _) reply.callbacks_length, h.status_code]
  · rw [(foldl_body htype _).2, Reply.bodyParts, h.content]

theorem onCallback_reqBody {hp : HttpParserData} (h : hp.parser_type = .request) (c : Callback) :
    (onCallback hp c).parser_type = .request ∧
      (onCallback hp c).req.body = hp.req.body ++ c.bodyPart := by
  have hstored : (handleHeader hp).parser_type = .request ∧
      (handleHeader hp).req.body = hp.req.body ++ [] := by
    rw [List.append_nil, handleHeader, h]
    split_ifs
    · exact ⟨rfl, rfl⟩
    · exact ⟨h, rfl⟩
  cases c with
  | body at' =>
      rw [onCallback, onBody, h]
      exact ⟨rfl, rfl⟩
  | status k =>
      rw [onCallback, onStatus, h]
      exact ⟨rfl, (List.append_nil _).symm⟩
  | headerField at' => exact hstored
  | headersComplete => exact hstored
  | messageBegin | url | headerValue | messageComplete | chunkHeader | chunkComplete =>
      exact ⟨h, (List.append_nil _).symm⟩

theorem foldl_reqBody {hp : HttpParserData} (h : hp.parser_type = .request) (cs : List Callback) :
    (cs.foldl onCallback hp).req.body = hp.req.body ++ cs.flatMap Callback.bodyPart := by
  induction cs generalizing hp with
  | nil => exact (List.append_nil _).symm
  | cons c cs ih =>
      obtain ⟨htype, hbody⟩ := onCallback_reqBody h c
      rw [List.foldl_cons, ih htype, hbody, List.flatMap_cons, List.append_assoc]

theorem delivery_bodyParts (d : Delivery) :
    d.callbacks.flatMap Callback.bodyPart = d.body.content := by
  rw [Delivery.callbacks, Delivery.head, List.flatMap_append, List.flatMap_append,
    List.flatMap_cons, List.flatMap_cons, List.flatMap_append, HeaderPieces.bodyParts,
    BodyPieces.bodyParts]
  simp [Callback.bodyPart, List.flatMap_map]

theorem Conveys.held {d : Delivery} {request : Request} (h : Conveys d request)
    {hp : HttpParserData} (htype : hp.parser_type = .request) :
    (d.callbacks.foldl onCallback hp).state = .messageComplete ∧
      (d.callbacks.foldl onCallback hp).method = request.method ∧
      (d.callbacks.foldl onCallback hp).url = hp.url ++ request.target ∧
      (d.callbacks.foldl onCallback hp).req.body =
        hp.req.body ++ request.entity.content.body := by
  refine ⟨?_, ?_, ?_, ?_⟩
  · rw [Delivery.callbacks_eq, List.foldl_append]
    rfl
  · rw [Delivery.callbacks_eq, List.foldl_append, ← h.method]
    rfl
  · rw [foldl_url, Delivery.urlParts, h.url]
  · rw [foldl_reqBody htype, delivery_bodyParts, h.content]

/-- What the client writes for a request, the server has in the end, in whatever segments it
arrives. -/
theorem makeHttpRequest_received (encodeKey : Bytes → Bytes) {req : HttpRequest} {u : Url}
    (fresh : Uninitialised) (resp : HttpResponse) (hsends : SendsBody req)
    (hpath : (cStr u.path).all visible = true) (hhost : Legible (cStr u.host))
    (hn : (makeHttpRequest req u).length ≤ maxHeaderSize + req.body.length)
    (hlength : (makeHttpRequest req u).length < 2 ^ 31)
    {segments : List Bytes} (hall : ∀ data ∈ segments, data ≠ [])
    (htext : segments.flatten = makeHttpRequest req u) :
    let hp := feedAll (vendored encodeKey) (.new (vendored encodeKey) fresh .request resp) segments
    isComplete hp.toHttpParserData = true ∧ hp.method = req.method ∧
      hp.url = '/'.toUInt8 :: cStr u.path ∧ hp.req.body = req.body := by
  have hbody : req.body.length < 2 ^ 31 := by
    refine lt_of_le_of_lt ?_ hlength
    rw [makeHttpRequest_eq, hsends.sent]
    exact length_spell_le _ _
  let request := made req u hsends hbody hpath hhost
  have hrequest : request.text = makeHttpRequest req u := made_text hsends hbody hpath hhost
  have hsize : (makeHttpRequest req u).length = request.head.length + 2 + req.body.length :=
    hrequest ▸ request.text_length
  rw [← hrequest] at htext hlength
  obtain ⟨d, hconveys, hreported, -⟩ :=
    exists_delivery encodeKey request (by omega) hall htext hlength
  have hheld := @Conveys.held d request hconveys
    (Http.HttpParser.new (vendored encodeKey) fresh .request resp).toHttpParserData rfl
  rw [← hreported] at hheld
  obtain ⟨hstate, hheld⟩ := hheld
  dsimp only
  rw [feedAll_data]
  exact ⟨decide_eq_true hstate, hheld⟩

/-- Members that no constructor sets. -/
def zeroed : Uninitialised :=
  ⟨.delete, .delete, 0, 0⟩

/-- A request with a body, for `http://host/a?b`. -/
def postRequest : HttpRequest :=
  ⟨[], .post, .empty, ascii "hello", 0⟩

def postUrl : Url :=
  ⟨ascii "http", ascii "host", 80, ascii "a?b"⟩

theorem makeHttpRequest_received_post :
    let hp := feedAll (vendored id) (.new (vendored id) zeroed .request (.new zeroed))
      [(makeHttpRequest postRequest postUrl).take 20, (makeHttpRequest postRequest postUrl).drop 20]
    isComplete hp.toHttpParserData = true ∧ hp.method = .post ∧
      hp.url = '/'.toUInt8 :: cStr (ascii "a?b") ∧ hp.req.body = ascii "hello" :=
  @makeHttpRequest_received id postRequest postUrl zeroed (.new zeroed) (.inr rfl) (by decide)
    ⟨forall_mem_of_all (by decide), forall_head_of_all (by decide)⟩ (by decide +kernel) (by decide +kernel) _ (by decide +kernel) rfl

/-- What the server writes for a response of its handler, the client has in the end: the body
byte for byte, in whatever chunks it arrives. -/
theorem dump_received (encodeKey : Bytes → Bytes) (resp : HttpResponse) (fresh : Uninitialised)
    (hplain : ∀ field ∈ resp.headers.entries, Plain field)
    (hn : (resp.dump httpHeader).length ≤ maxHeaderSize + resp.body.length)
    (hlength : (resp.dump httpHeader).length < 2 ^ 31) {chunks : List Bytes}
    (hall : ∀ data ∈ chunks, data ≠ []) (htext : chunks.flatten = resp.dump httpHeader) :
    let hp := feedAll (vendored encodeKey)
      (.new (vendored encodeKey) fresh .response (.new fresh)) chunks
    isComplete hp.toHttpParserData = true ∧ hp.resp.status_code = 200 ∧
      hp.resp.body = resp.body := by
  have hbody : resp.body.length < 2 ^ 31 := by
    refine lt_of_le_of_lt ?_ hlength
    rw [dump_eq]
    exact length_spell_le _ _
  let response := dumped resp hplain hbody
  have hresponse : response.text = resp.dump httpHeader := dumped_text resp hplain hbody
  have hsize : (resp.dump httpHeader).length = response.head.length + 2 + resp.body.length :=
    hresponse ▸ response.text_length
  rw [← hresponse] at htext hlength
  obtain ⟨reply, hcarries, hreported, -⟩ :=
    exists_reply encodeKey response (by omega) hall htext hlength
  have hheld := @Carries.held reply response hcarries
    (Http.HttpParser.new (vendored encodeKey) fresh .response (.new fresh)).toHttpParserData rfl
  rw [← hreported] at hheld
  obtain ⟨hstate, hheld⟩ := hheld
  dsimp only
  rw [feedAll_data]
  exact ⟨decide_eq_true hstate, hheld⟩

def plainResponse : HttpResponse :=
  ⟨.set .empty (ascii "Server") (ascii "libconn"), ascii "hello", 200⟩

theorem dump_received_plain :
    let hp := feedAll (vendored id) (.new (vendored id) zeroed .response (.new zeroed))
      [(plainResponse.dump httpHeader).take 20, (plainResponse.dump httpHeader).drop 20]
    isComplete hp.toHttpParserData = true ∧ hp.resp.status_code = 200 ∧
      hp.resp.body = plainResponse.body := by
  refine dump_received id plainResponse zeroed ?_ (by decide) (by decide) (by decide) (by decide)
  intro field hfield
  obtain rfl : field = (ascii "Server", ascii "libconn") := List.mem_singleton.mp hfield
  exact plain_of_isPlain (by decide)

end LibConn.Parser
