import LibConn.Model.WebSocketClient
import LibConn.Verification.Http.Base64
import LibConn.Verification.Http.Responses
import LibConn.Verification.Parser.Messages

/-! # Upgrades

A request for another protocol ends the call behind its empty line: what follows is not looked at,
and left to that protocol. -/

namespace LibConn.Parser

open LibConn.Http

/-- `Connection: Upgrade` -/
def asksConnection (field : Bytes × Bytes) : Bool :=
  kindOf (field.1.map token) = .connection && field.2.map lower = ascii "upgrade"

def asksProtocol (field : Bytes × Bytes) : Bool :=
  kindOf (field.1.map token) = .upgrade

/-- A field that means nothing to the parser, or one of the two that ask for an upgrade. -/
inductive Asking (field : Bytes × Bytes) : Prop where
  | plain (hplain : Plain field)
  | connection (hname : Nameable field.1) (hinside : ∀ b ∈ field.2, insideValue b = true)
      (hasks : asksConnection field = true)
  | protocol (hname : Nameable field.1) (hvalue : Legible field.2) (hne : field.2 ≠ [])
      (hasks : asksProtocol field = true)

/-- The parser behind fields that ask for an upgrade. -/
def HttpParser.asked (core : HttpParser) (fields : List (Bytes × Bytes)) : HttpParser :=
  { core with
    flags := { core.flags with
      connectionUpgrade := core.flags.connectionUpgrade || fields.any asksConnection
      upgrade := core.flags.upgrade || fields.any asksProtocol } }

structure UpgradeRequest where
  method : HttpMethod
  target : Bytes
  version : Version
  fields : List (Bytes × Bytes)
  ne_connect : method ≠ .connect
  targets : Targets method target
  asking : ∀ field ∈ fields, Asking field
  connection : fields.any asksConnection = true
  protocol : fields.any asksProtocol = true

def UpgradeRequest.text (request : UpgradeRequest) : Bytes :=
  requestLineText request.method request.target request.version ++ fieldLines request.fields ++
    [CR, LF]

def UpgradeRequest.calls (request : UpgradeRequest) : List Call :=
  [.messageBegin, .url request.target] ++ request.fields.flatMap fieldCalls ++
    [.headersComplete, .messageComplete request.method]

section Upgrades

variable {parser core : HttpParser} {field : Bytes × Bytes} {fields : List (Bytes × Bytes)} {n : ℕ}

/-! ## The fields -/

theorem Asking.nameable (h : Asking field) : Nameable field.1 := by
  cases h with
  | plain hplain => exact hplain.name
  | connection hname => exact hname
  | protocol hname => exact hname

theorem asking_connection : Asking (ascii "Connection", ascii "Upgrade") :=
  .connection ⟨by decide, forall_mem_of_all (by decide)⟩ (forall_mem_of_all (by decide))
    (by decide)

theorem asking_protocol : Asking (ascii "Upgrade", ascii "websocket") :=
  .protocol ⟨by decide, forall_mem_of_all (by decide)⟩
    ⟨forall_mem_of_all (by decide), forall_head_of_all (by decide)⟩ (by decide) (by decide)

theorem asked_of_plain (hplain : Plain field) : core.asked [field] = core := by
  simp [HttpParser.asked, asksConnection, asksProtocol, hplain.kind]

theorem asked_of_connection (h : asksConnection field = true) :
    core.asked [field] =
      { core with flags := { core.flags with connectionUpgrade := true } } := by
  have hkind : kindOf (field.1.map token) = .connection := by
    rw [asksConnection, Bool.and_eq_true] at h
    exact of_decide_eq_true h.1
  simp [HttpParser.asked, asksProtocol, h, hkind]

theorem asked_of_protocol (h : asksProtocol field = true) :
    core.asked [field] = { core with flags := { core.flags with upgrade := true } } := by
  have hkind : kindOf (field.1.map token) = .upgrade := of_decide_eq_true h
  simp [HttpParser.asked, asksConnection, h, hkind]

theorem Asking.takes (h : Asking field) : Takes core field (core.asked [field]) := by
  cases h with
  | plain hplain =>
      rw [asked_of_plain hplain]
      exact hplain.takes
  | connection hname hinside hasks =>
      rw [asked_of_connection hasks]
      rw [asksConnection, Bool.and_eq_true, decide_eq_true_eq, decide_eq_true_eq] at hasks
      obtain ⟨hkind, hvalue⟩ := hasks
      have hword : (⟨.connection, ascii "upgrade", .matchingConnectionUpgrade,
          .connectionUpgrade⟩ : Word) ∈ words := by decide
      have htakes := @takes_word core _ _ _ hname hword hkind hvalue hinside
      rw [named_of_kind hkind (by decide)] at htakes
      simpa [HttpParser.flag] using htakes
  | protocol hname hvalue hne hasks =>
      rw [asked_of_protocol hasks]
      exact takes_upgrade hname (of_decide_eq_true hasks) hvalue hne

theorem asked_asked (fields : List (Bytes × Bytes)) :
    (core.asked [field]).asked fields = core.asked (field :: fields) := by
  simp [HttpParser.asked, Bool.or_assoc]

theorem takesAll_asking (h : ∀ field ∈ fields, Asking field) :
    TakesAll core fields (core.asked fields) := by
  induction fields generalizing core with
  | nil =>
      have hsame : core.asked [] = core := by simp [HttpParser.asked]
      rw [hsame]
      exact .nil
  | cons field fields ih =>
      obtain ⟨hfield, hfields⟩ := List.forall_mem_cons.mp h
      rw [← asked_asked]
      exact .cons hfield.takes (ih hfields)

/-! ## The empty line -/

theorem headersDone_leave {line : HttpParser} (hasks : line.asksUpgrade = true)
    (hchunked : line.flags.chunked = false)
    (hlength : line.content_length = 0 ∨ line.content_length = ullongMax) :
    headersDone line.headed LF =
      .leave { line with state := line.newMessage, upgrade := true, nread := 0 }
        [.notify .messageComplete] := by
  have hbody : (line.flags.chunked ||
      (decide (0 < line.content_length) && decide (line.content_length ≠ ullongMax))) = false := by
    rw [hchunked]
    rcases hlength with hlength | hlength <;> simp [hlength]
  rw [headersDone, if_neg (by decide), HttpParser.headed, hasks]
  dsimp only
  rw [hbody, if_pos (by simp)]
  rfl

/-- A message for another protocol, from its first line to the empty line. -/
theorem message_leaves {first : Bytes} {calls : List Call} {start : HttpParser}
    (hfirst : Advances parser first calls start) (hstart : start.state = .headerFieldStart)
    (hfields : TakesAll start.core fields core) (hnames : ∀ field ∈ fields, Nameable field.1)
    (htrailing : core.flags.trailing = false) (hclash : core.clashes = false)
    (hasks : core.asksUpgrade = true) (hchunked : core.flags.chunked = false)
    (hlength : core.content_length = 0 ∨ core.content_length = ullongMax)
    (hn : n + (first ++ fieldLines fields).length + 2 ≤ maxHeaderSize) :
    ∃ last, Leaves (parser.withNread n) (first ++ fieldLines fields ++ [CR, LF])
        (calls ++ fields.flatMap fieldCalls ++ [.headersComplete, .messageComplete core.method])
        last ∧ last.upgrade = true := by
  obtain ⟨before, middle, pending, line, hadvances, hready, hcalls, rfl⟩ :=
    hfields.advances hnames (.first hstart) rfl
  have hturn := @headersDone_leave line hasks hchunked hlength
  have hleaves := head_leaves hready htrailing hclash hturn hn
  have hboth := ((hfirst.append hadvances) n (Nat.le_of_add_right_le hn)).leaves hleaves
  rw [byteCalls_notify LF _ _ rfl, byteCalls_outside LF _ rfl, List.append_assoc calls,
    ← List.append_assoc before, hcalls, List.nil_append, ← List.append_assoc] at hboth
  exact ⟨_, hboth, rfl⟩

/-- Whatever follows, the call takes the message and nothing of what follows, and says so. -/
theorem execute_of_leaves {text rest : Bytes} {calls : List Call} {last : HttpParser}
    (h : Leaves parser text calls last) (hsound : Sound parser) (hne : text ≠ [])
    (hlength : (text ++ rest).length < 2 ^ 31) :
    ∃ executed, execute parser (text ++ rest) = some executed ∧ executed.nparsed = text.length ∧
      executed.parser = last ∧ executed.parser.http_errno = .ok ∧
      joined executed.calls = joined calls := by
  obtain ⟨calls', heats, hcalls⟩ := h
  have hexecutes := execute_eats hsound (List.append_ne_nil_of_left_ne_nil hne rest) hlength
  rw [eats_append_left heats] at hexecutes
  obtain ⟨hsound', calls'', hresult, hsame⟩ := hexecutes
  refine ⟨_, hresult, ?_, rfl, hsound'.http_errno, hsame.trans hcalls⟩
  dsimp only
  rw [List.length_append, List.nil_append, Nat.add_sub_cancel]

/-- Whatever follows a request for an upgrade, the call takes the request and nothing of it, and
says so. -/
theorem upgrade_stops (request : UpgradeRequest) (hstart : AtStart parser) (hsound : Sound parser)
    (hn : parser.nread + request.text.length ≤ maxHeaderSize) (rest : Bytes)
    (hlength : (request.text ++ rest).length < 2 ^ 31) :
    ∃ executed, execute parser (request.text ++ rest) = some executed ∧
      executed.nparsed = request.text.length ∧ executed.parser.http_errno = .ok ∧
      executed.parser.upgrade = true ∧ joined executed.calls = joined request.calls := by
  obtain ⟨method, target, v, fields, hmethod, htargets, hasking, hconnection, hprotocol⟩ := request
  rw [UpgradeRequest.text, List.length_append, ← Nat.add_assoc] at hn
  have hasks : ((parser.requested method v).core.asked fields).asksUpgrade = true := by
    rw [HttpParser.asksUpgrade, HttpParser.asked, hconnection, hprotocol, if_pos (by simp)]
    rfl
  obtain ⟨last, hleaves, hupgrade⟩ :=
    message_leaves (requestLine_advances hstart htargets v) rfl (takesAll_asking hasking)
      (fun field hfield => (hasking field hfield).nameable) rfl rfl hasks rfl (.inr rfl) hn
  have hself : parser.withNread parser.nread = parser := rfl
  rw [hself] at hleaves
  obtain ⟨executed, hexecute, hnparsed, rfl, herrno, hcalls⟩ :=
    execute_of_leaves hleaves hsound (by simp) hlength
  exact ⟨executed, hexecute, hnparsed, herrno, hupgrade, hcalls⟩

/-! ## The handshake of the WebSocket client -/

/-- The value of `Host`. -/
def hostText (u : Url) : Bytes :=
  cStr u.host ++ if u.port ≠ 80 then ascii ":" ++ ascii (toString u.port) else []

/-- Headers that ask for a WebSocket, and a URL that can be written. -/
structure Handshakes (u : Url) (headers : HttpHeaders) : Prop where
  path : (cStr u.path).all visible = true
  host : Legible (hostText u)
  asking : ∀ field ∈ headers.entries, Asking field
  connection : headers.entries.any asksConnection = true
  protocol : headers.entries.any asksProtocol = true

theorem Handshakes.host_plain {u : Url} {headers : HttpHeaders} (h : Handshakes u headers) :
    Plain (ascii "Host", hostText u) :=
  plain_of_name (by decide) h.host

theorem any_cons_of_any {α : Type} {p : α → Bool} {a : α} {l : List α} (h : l.any p = true) :
    (a :: l).any p = true := by
  rw [List.any_cons, h, Bool.or_true]

/-- The request that `sendHttpRequest` writes. -/
def handshake (u : Url) (headers : HttpHeaders) (h : Handshakes u headers) : UpgradeRequest where
  method := .get
  target := '/'.toUInt8 :: cStr u.path
  version := .oneOne
  fields := (ascii "Host", hostText u) :: headers.entries
  ne_connect := by decide
  targets := targets_slash (by decide) h.path
  asking := List.forall_mem_cons.mpr ⟨.plain h.host_plain, h.asking⟩
  connection := any_cons_of_any h.connection
  protocol := any_cons_of_any h.protocol

theorem handshake_text {u : Url} {headers : HttpHeaders} (h : Handshakes u headers) :
    (handshake u headers h).text = requestText u headers := by
  have hget : ascii "GET /" = methodStrings .get ++ [' '.toUInt8, '/'.toUInt8] := by decide
  have hversion : ascii " HTTP/1.1\r\n" = ' '.toUInt8 :: Version.oneOne.text ++ [CR, LF] := by
    decide
  have hcrlf : ascii "\r\n" = [CR, LF] := by decide
  have hhost : fieldLine (ascii "Host", hostText u) = ascii "Host: " ++ hostText u := rfl
  rw [UpgradeRequest.text, requestText, handshake, requestLineText, fieldLines, List.flatMap_cons,
    hhost, hget, hversion, hcrlf]
  simp [fieldLine, hostText]

theorem legible_base64Encode (bytes : Bytes) : Legible (base64Encode bytes) := by
  have hsymbols : ∀ digit < 64, insideValue (LibConn.Base64.standard.symbol digit) = true ∧
      blank (LibConn.Base64.standard.symbol digit) = false := by decide
  have hall : ∀ b ∈ base64Encode bytes, insideValue b = true ∧ blank b = false := by
    intro b hb
    rw [base64Encode_eq] at hb
    rcases LibConn.Base64.mem_encode hb with ⟨digit, hdigit, rfl⟩ | rfl
    · exact hsymbols digit hdigit
    · decide
  exact ⟨fun b hb => (hall b hb).1, fun b hb => (hall b (List.mem_of_mem_head? hb)).2⟩

/-- The headers that `sendHttpRequest` makes of headers that mean nothing to the parser. -/
theorem handshakes_requestHeaders {u : Url} {headers : HttpHeaders} (rand_key : Fin 16 → UInt8)
    (hpath : (cStr u.path).all visible = true) (hhost : Legible (hostText u))
    (hplain : ∀ field ∈ headers.entries, Plain field) :
    Handshakes u (requestHeaders rand_key headers) := by
  have hkey : Asking (secWebsocketKey, base64Encode (List.ofFn rand_key)) :=
    .plain (plain_of_name (by decide) (legible_base64Encode _))
  have hversion : Asking (ascii "Sec-WebSocket-Version", ascii "13") :=
    .plain (plain_of_isPlain (by decide))
  have hfind : (requestHeaders rand_key headers).find (ascii "Connection") =
      some (ascii "Upgrade") := by
    unfold requestHeaders
    dsimp only
    rw [OrderedMap.find_set_of_ne _ _ (by decide), OrderedMap.find_set_of_ne _ _ (by decide),
      OrderedMap.find_set_of_ne _ _ (by decide), OrderedMap.find_set_self]
  have hfind' : (requestHeaders rand_key headers).find (ascii "Upgrade") =
      some (ascii "websocket") := by
    unfold requestHeaders
    dsimp only
    rw [OrderedMap.find_set_of_ne _ _ (by decide), OrderedMap.find_set_of_ne _ _ (by decide),
      OrderedMap.find_set_self]
  refine ⟨hpath, hhost, ?_, ?_, ?_⟩
  · exact OrderedMap.forall_set (OrderedMap.forall_set (OrderedMap.forall_set
      (OrderedMap.forall_set (fun field hfield => .plain (hplain field hfield)) asking_connection)
      asking_protocol) hkey) hversion
  · exact List.any_eq_true.mpr ⟨_, OrderedMap.mem_of_find hfind, by decide⟩
  · exact List.any_eq_true.mpr ⟨_, OrderedMap.mem_of_find hfind', by decide⟩

/-- The server's parser takes the handshake of the client and nothing of the frames behind it. -/
theorem handshake_stops {u : Url} {headers : HttpHeaders} (rand_key : Fin 16 → UInt8)
    (hpath : (cStr u.path).all visible = true) (hhost : Legible (hostText u))
    (hplain : ∀ field ∈ headers.entries, Plain field) (hstart : AtStart parser)
    (hsound : Sound parser)
    (hn : parser.nread + (requestText u (requestHeaders rand_key headers)).length ≤ maxHeaderSize)
    (frames : Bytes)
    (hlength : (requestText u (requestHeaders rand_key headers) ++ frames).length < 2 ^ 31) :
    ∃ executed,
      execute parser (requestText u (requestHeaders rand_key headers) ++ frames) =
          some executed ∧
        executed.nparsed = (requestText u (requestHeaders rand_key headers)).length ∧
        executed.parser.http_errno = .ok ∧ executed.parser.upgrade = true ∧
        joined executed.calls = joined ([.messageBegin, .url ('/'.toUInt8 :: cStr u.path)] ++
          ((ascii "Host", hostText u) ::
            (requestHeaders rand_key headers).entries).flatMap fieldCalls ++
          [.headersComplete, .messageComplete .get]) := by
  have h := handshakes_requestHeaders rand_key hpath hhost hplain
  rw [← handshake_text h] at hn hlength ⊢
  exact upgrade_stops (handshake u _ h) hstart hsound hn frames hlength

def chatUrl : Url :=
  ⟨ascii "ws", ascii "host", 80, ascii "chat"⟩

/-- A frame behind a handshake with the key zero. -/
theorem handshake_stops_chat :
    ∃ executed,
      execute (.init .both) (requestText chatUrl (requestHeaders (fun _ => 0) .empty) ++ [129, 0]) =
          some executed ∧
        executed.nparsed = (requestText chatUrl (requestHeaders (fun _ => 0) .empty)).length ∧
        executed.parser.http_errno = .ok ∧ executed.parser.upgrade = true ∧
        joined executed.calls = joined ([.messageBegin, .url (ascii "/chat")] ++
          ((ascii "Host", hostText chatUrl) ::
            (requestHeaders (fun _ => 0) .empty).entries).flatMap fieldCalls ++
          [.headersComplete, .messageComplete .get]) :=
  handshake_stops (fun _ => 0) (by decide)
    ⟨forall_mem_of_all (by decide), forall_head_of_all (by decide)⟩ (List.forall_mem_nil _)
    (.inr rfl) (sound_init .both) (by decide +kernel) [129, 0] (by decide +kernel)

/-! ## The answer of the server -/

theorem dump_wsHeader {resp : HttpResponse} (hbody : resp.body = []) :
    resp.dump wsHeader =
      statusLineText .oneOne (ascii "101") (ascii "Switching Protocols") ++
        fieldLines resp.written ++ [CR, LF] := by
  have hcrlf : ascii "\r\n" = [CR, LF] := by decide
  have hheader : wsHeader =
      statusLineText .oneOne (ascii "101") (ascii "Switching Protocols") := by decide
  have hlength : ascii "Content-Length: " = Http.contentLength ++ ascii ": " := by decide
  rw [HttpResponse.dump, hheader, hlength, hcrlf, HttpResponse.written, fieldLines,
    List.flatMap_append, List.flatMap_singleton, fieldLine, hbody]
  simp [fieldLine]

/-- The parser behind a Content-Length that says zero. -/
def HttpParser.emptied (core : HttpParser) : HttpParser :=
  { core with flags := { core.flags with contentlength := true }, content_length := 0 }

theorem nameable_contentLength : Nameable Http.contentLength :=
  ⟨by decide, forall_mem_of_all (by decide)⟩

theorem takesAll_written {resp : HttpResponse}
    (hasking : ∀ field ∈ resp.headers.entries, Asking field) (hbody : resp.body = [])
    (honce : core.flags.contentlength = false) :
    TakesAll core resp.written (core.asked resp.headers.entries).emptied := by
  have hzero : decimal (formatInt resp.body.length) = some 0 := by
    rw [hbody]
    decide
  have htakes := @takes_length (core.asked resp.headers.entries) _ _ _ nameable_contentLength
    (by decide) honce hzero (Nat.zero_le _) 0
  rw [List.replicate_zero, List.append_nil] at htakes
  exact (takesAll_asking hasking).append (.cons htakes .nil)

/-- The client's parser takes the answer of the server, and nothing of the frames behind it. -/
theorem dump_stops {resp : HttpResponse} (hasking : ∀ field ∈ resp.headers.entries, Asking field)
    (hconnection : resp.headers.entries.any asksConnection = true)
    (hprotocol : resp.headers.entries.any asksProtocol = true) (hbody : resp.body = [])
    (hstart : AtReply parser) (hsound : Sound parser)
    (hn : parser.nread + (resp.dump wsHeader).length ≤ maxHeaderSize) (frames : Bytes)
    (hlength : (resp.dump wsHeader ++ frames).length < 2 ^ 31) :
    ∃ executed, execute parser (resp.dump wsHeader ++ frames) = some executed ∧
      executed.nparsed = (resp.dump wsHeader).length ∧ executed.parser.http_errno = .ok ∧
      executed.parser.upgrade = true ∧
      joined executed.calls =
        joined ([.messageBegin, .status (ascii "Switching Protocols") 101] ++
          resp.written.flatMap fieldCalls ++
          [.headersComplete, .messageComplete parser.method]) := by
  rw [dump_wsHeader hbody] at hn hlength ⊢
  rw [List.length_append, ← Nat.add_assoc] at hn
  have hnames : ∀ field ∈ resp.written, Nameable field.1 := by
    intro field hfield
    rcases List.mem_append.mp hfield with hfield | hfield
    · exact (hasking field hfield).nameable
    · obtain rfl := List.mem_singleton.mp hfield
      exact nameable_contentLength
  have hasks : (((parser.answered .oneOne 101).core.asked
      resp.headers.entries).emptied).asksUpgrade = true := by
    rw [HttpParser.asksUpgrade, HttpParser.emptied, HttpParser.asked, hconnection, hprotocol,
      if_pos (by simp)]
    rfl
  obtain ⟨last, hleaves, hupgrade⟩ :=
    message_leaves (statusLine_advances hstart .oneOne (by decide) (by decide)
      (forall_mem_of_all (by decide))) rfl (takesAll_written hasking hbody rfl) hnames rfl rfl
      hasks rfl (.inl rfl) hn
  have hself : parser.withNread parser.nread = parser := rfl
  rw [hself] at hleaves
  obtain ⟨executed, hexecute, hnparsed, rfl, herrno, hcalls⟩ :=
    execute_of_leaves hleaves hsound (by simp) hlength
  exact ⟨executed, hexecute, hnparsed, herrno, hupgrade, hcalls⟩

def switchingResponse : HttpResponse :=
  ⟨.set (.set .empty (ascii "Connection") (ascii "Upgrade")) (ascii "Upgrade") (ascii "websocket"),
    [], 101⟩

/-- A frame behind the answer. -/
theorem dump_stops_frame :
    ∃ executed, execute (.init .both) (switchingResponse.dump wsHeader ++ [129, 0]) =
        some executed ∧
      executed.nparsed = (switchingResponse.dump wsHeader).length ∧
      executed.parser.http_errno = .ok ∧ executed.parser.upgrade = true ∧
      joined executed.calls =
        joined ([.messageBegin, .status (ascii "Switching Protocols") 101] ++
          switchingResponse.written.flatMap fieldCalls ++
          [.headersComplete, .messageComplete .delete]) :=
  dump_stops (OrderedMap.forall_set (OrderedMap.forall_set (List.forall_mem_nil _)
    asking_connection) asking_protocol) (by decide) (by decide) rfl (.inr rfl) (sound_init .both)
    (by decide +kernel) [129, 0] (by decide +kernel)

end Upgrades

end LibConn.Parser
