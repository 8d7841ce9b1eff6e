import LibConn.Verification.Http.Assembly
import LibConn.Verification.Sessions.LifeCycle
import LibConn.Verification.WebSocketClient.Frames

/-! # The case of header names

The maps of headers are keyed by the names as they were sent. `isUpgradeWSProtocol` compares the
name of each entry without regard to case; the other names are looked up as the source spells
them. So two handshakes that differ in the case of names may end differently. -/

namespace LibConn.Http

variable {σ : Type}

/-! ## Statements -/

/-- The same header, with letters of its name in another case. -/
structure HeaderPieces.Recased (h h' : HeaderPieces) : Prop where
  name : h.name.map (List.map toLower) = h'.name.map (List.map toLower)
  value : h.value = h'.value

/-- Behind the segment a parser has heard the headers `hs` of a message, which it began to hear
as `hp`, and the message is complete. -/
structure HearsHeaders (lib : Externals σ) (hp : HttpParserData) (hs : List HeaderPieces)
    (parser : HttpParser σ) (data : Bytes) : Prop where
  named : ∀ h ∈ hs, h.name ≠ []
  heard : ∃ later : List Callback, (∀ c ∈ later, c.Quiet ∧ c.endsHeaders = false) ∧
    (parser.feedRecvData lib data).2.toHttpParserData =
      later.foldl onCallback (afterHeaders hp hs)
  complete : isComplete (parser.feedRecvData lib data).2.toHttpParserData = true

/-- Whether `feedRecvData` has upgraded the connection, and the headers of the response that
it has sent if so. -/
def Fed.upgrade (fed : Fed σ) : Option HttpHeaders :=
  match fed.handle.m_serviceType with
  | .http => none
  | .websocket => some fed.handle.m_response.headers

/-- Two clients that are the same but for the parsers and for the callbacks that have reported
the responses. -/
structure SameTransition (s t : WebSocketClient σ) : Prop where
  client : t =
    { s with m_httpParser := t.m_httpParser, callbacks := t.callbacks, openings := t.openings }
  openings : t.openings.map Opening.session = s.openings.map Opening.session

/-- A response that switches protocols and that the parser takes for no error; `rest` is behind
it in the segment. -/
structure HearsSwitch (lib : ClientLib σ) (hp : HttpParserData) (hs : List HeaderPieces)
    (parser : HttpParser σ) (data rest : Bytes) : Prop
    extends HearsHeaders lib.toExternals hp hs parser data where
  noError : ¬ ((parser.feedRecvData lib.toExternals data).1 ≠ data.length ∧
    lib.httpErrno (parser.feedRecvData lib.toExternals data).2.parser = true)
  status : (parser.feedRecvData lib.toExternals data).2.resp.status_code = 101
  behind : data.drop (parser.feedRecvData lib.toExternals data).1 = rest

/-- The value of the last header that is spelled like this, or else what an earlier message has
left under the name. -/
def exactValue (hp : HttpParserData) (hs : List HeaderPieces) (name : Bytes) : Option Bytes :=
  (lastValue (storedPairs ((hp.header_field, hp.header_value) :: hs.flatMap HeaderPieces.pairs) [])
    name).or (hp.messageHeaders.find name)

/-- Some spelling of `Upgrade` has `websocket` for its last value. -/
def AsksWebsocket (hp : HttpParserData) (hs : List HeaderPieces) : Prop :=
  ∃ name value, exactValue hp hs name = some value ∧ isUpgradeHeader (name, value) = true

/-- The header that answers the key, and the sub-protocol; a handler may have set them for an
earlier request. -/
def answeredKey (lib : Externals σ) (hp : HttpParserData) (hs : List HeaderPieces) :
    Option Bytes :=
  ((exactValue hp hs secWebsocketKey).map fun key => cStr (lib.wsEncodeKey (cStr key))).or
    (hp.resp.headers.find secWebsocketAccept)

def answeredProtocol (hp : HttpParserData) (hs : List HeaderPieces) : Option Bytes :=
  (exactValue hp hs secWebsocketProtocol).or (hp.resp.headers.find secWebsocketProtocol)

/-- Both requests ask for the upgrade or neither does, and if they do then the two names that
must be spelled in one way lead to the same. -/
structure SpelledAlike (lib : Externals σ) (hp : HttpParserData) (hs hs' : List HeaderPieces) :
    Prop where
  asks : AsksWebsocket hp hs ↔ AsksWebsocket hp hs'
  key : AsksWebsocket hp hs → answeredKey lib hp hs = answeredKey lib hp hs'
  protocol : AsksWebsocket hp hs → answeredProtocol hp hs = answeredProtocol hp hs'

/-! ## What the parser has heard -/

section Hears

variable {lib : Externals σ} {hp : HttpParserData} {hs : List HeaderPieces}
  {parser : HttpParser σ} {data : Bytes}

theorem handleHeader_keeps (hp : HttpParserData) :
    (handleHeader hp).parser_type = hp.parser_type ∧
      (hp.parser_type = .request → (handleHeader hp).resp = hp.resp) := by
  rw [handleHeader]
  split_ifs
  · cases htype : hp.parser_type with
    | request => exact ⟨rfl, fun _ => rfl⟩
    | response => exact ⟨rfl, fun h => by cases h⟩
  · exact ⟨rfl, fun _ => rfl⟩

theorem onCallback_keeps (hp : HttpParserData) (c : Callback) :
    (onCallback hp c).parser_type = hp.parser_type ∧
      (hp.parser_type = .request → (onCallback hp c).resp = hp.resp) := by
  cases c with
  | headerField _ | headersComplete => exact handleHeader_keeps hp
  | status _ | body _ =>
      simp only [onCallback, onStatus, onBody]
      cases htype : hp.parser_type with
      | request => exact ⟨rfl, fun _ => rfl⟩
      | response => exact ⟨rfl, fun h => by cases h⟩
  | messageBegin | url _ | headerValue _ | messageComplete _ | chunkHeader | chunkComplete =>
      exact ⟨rfl, fun _ => rfl⟩

theorem foldl_keeps (cs : List Callback) (hp : HttpParserData) :
    (cs.foldl onCallback hp).parser_type = hp.parser_type ∧
      (hp.parser_type = .request → (cs.foldl onCallback hp).resp = hp.resp) := by
  induction cs generalizing hp with
  | nil => exact ⟨rfl, fun _ => rfl⟩
  | cons c cs ih =>
      obtain ⟨htype, hresp⟩ := onCallback_keeps hp c
      obtain ⟨htypes, hresps⟩ := ih (onCallback hp c)
      exact ⟨htypes.trans htype, fun h => (hresps (htype.trans h)).trans (hresp h)⟩

theorem quiet_messageHeaders {cs : List Callback}
    (hcs : ∀ c ∈ cs, c.Quiet ∧ c.endsHeaders = false) (hp : HttpParserData) :
    (cs.foldl onCallback hp).messageHeaders = hp.messageHeaders := by
  induction cs generalizing hp with
  | nil => rfl
  | cons c cs ih =>
      obtain ⟨hquiet, hends⟩ := hcs c List.mem_cons_self
      rw [List.foldl_cons, ih (fun c' hc' => hcs c' (List.mem_cons_of_mem _ hc'))]
      cases c with
      | headerField _ => exact hquiet.elim
      | headerValue _ => exact hquiet.elim
      | headersComplete => cases hends
      | status _ | body _ =>
          simp only [onCallback, onStatus, onBody, HttpParserData.messageHeaders]
          cases hp.parser_type <;> rfl
      | messageBegin | url _ | messageComplete _ | chunkHeader | chunkComplete => rfl

theorem afterHeaders_keeps (hp : HttpParserData) (hs : List HeaderPieces) :
    (afterHeaders hp hs).parser_type = hp.parser_type ∧
      (hp.parser_type = .request → (afterHeaders hp hs).resp = hp.resp) := by
  have hkeeps := foldl_keeps (hs.flatMap HeaderPieces.callbacks ++ [.headersComplete]) hp
  rw [List.foldl_append] at hkeeps
  exact hkeeps

theorem find_afterHeaders (hnamed : ∀ h ∈ hs, h.name ≠ []) (name : Bytes) :
    (afterHeaders hp hs).messageHeaders.find name = exactValue hp hs name := by
  have hstart : Gathers hp hp [(hp.header_field, hp.header_value)] :=
    ⟨fun _ => rfl, fun _ => rfl, fun _ => rfl⟩
  obtain ⟨-, hmessage, -⟩ := (headers_foldl Gathers.pair hstart hnamed).complete
  rw [afterHeaders, hmessage, find_setAll]
  rfl

theorem HearsHeaders.parser_type (h : HearsHeaders lib hp hs parser data) :
    (parser.feedRecvData lib data).2.parser_type = hp.parser_type := by
  obtain ⟨later, -, hheard⟩ := h.heard
  rw [hheard, (foldl_keeps later _).1, (afterHeaders_keeps hp hs).1]

theorem HearsHeaders.find (h : HearsHeaders lib hp hs parser data) (name : Bytes) :
    (parser.feedRecvData lib data).2.messageHeaders.find name = exactValue hp hs name := by
  obtain ⟨later, hlater, hheard⟩ := h.heard
  rw [hheard, quiet_messageHeaders hlater, find_afterHeaders h.named]

theorem HearsHeaders.resp (h : HearsHeaders lib hp hs parser data)
    (htype : hp.parser_type = .request) :
    (parser.feedRecvData lib data).2.resp = hp.resp := by
  obtain ⟨later, -, hheard⟩ := h.heard
  have hkeeps := afterHeaders_keeps hp hs
  rw [hheard, (foldl_keeps later _).2 (hkeeps.1.trans htype), hkeeps.2 htype]

end Hears

/-! ## The server -/

section Server

variable {lib : Externals σ} {hp : HttpParserData} {hs hs' : List HeaderPieces}
  {handle handle' : HttpHandle σ} {data data' : Bytes}

theorem find_optional (headers : HttpHeaders) (value : Option Bytes) (f : Bytes → Bytes)
    (key name : Bytes) :
    (match value with
      | some v => headers.set key (f v)
      | none => headers).find name =
      if name = key then (value.map f).or (headers.find key) else headers.find name := by
  cases value with
  | some v =>
      split_ifs with hname
      · subst hname
        exact OrderedMap.find_set_self _ _ _
      · exact OrderedMap.find_set_of_ne _ _ (Ne.symm hname)
  | none =>
      split_ifs with hname
      · rw [hname]
        rfl
      · rfl

theorem find_upgradeHeaders (request headers : HttpHeaders) (name : Bytes) :
    (upgradeHeaders lib request headers).find name =
      if name = secWebsocketProtocol then
        (request.find secWebsocketProtocol).or (headers.find secWebsocketProtocol)
      else if name = secWebsocketAccept then
        ((request.find secWebsocketKey).map fun key => cStr (lib.wsEncodeKey (cStr key))).or
          (headers.find secWebsocketAccept)
      else ((headers.set (ascii "Connection") (ascii "Upgrade")).set (ascii "Upgrade")
        (ascii "websocket")).find name := by
  have hne : secWebsocketProtocol ≠ secWebsocketAccept := by decide
  refine (find_optional _ (request.find secWebsocketProtocol) id secWebsocketProtocol name).trans ?_
  have hkey := find_optional ((headers.set (ascii "Connection") (ascii "Upgrade")).set
    (ascii "Upgrade") (ascii "websocket")) (request.find secWebsocketKey)
    (fun key => cStr (lib.wsEncodeKey (cStr key))) secWebsocketAccept
  rw [Option.map_id]
  refine if_congr Iff.rfl ?_ ((hkey name).trans (if_congr Iff.rfl ?_ rfl))
  · refine congrArg _ ((hkey secWebsocketProtocol).trans ?_)
    rw [if_neg hne, OrderedMap.find_set_of_ne _ _ (by decide),
      OrderedMap.find_set_of_ne _ _ (by decide)]
  · rw [OrderedMap.find_set_of_ne _ _ (by decide), OrderedMap.find_set_of_ne _ _ (by decide)]

theorem upgradeHeaders_eq_iff {request request' headers : HttpHeaders} :
    upgradeHeaders lib request headers = upgradeHeaders lib request' headers ↔
      ((request.find secWebsocketKey).map fun key => cStr (lib.wsEncodeKey (cStr key))).or
          (headers.find secWebsocketAccept) =
        ((request'.find secWebsocketKey).map fun key => cStr (lib.wsEncodeKey (cStr key))).or
          (headers.find secWebsocketAccept) ∧
      (request.find secWebsocketProtocol).or (headers.find secWebsocketProtocol) =
        (request'.find secWebsocketProtocol).or (headers.find secWebsocketProtocol) := by
  have hne : secWebsocketAccept ≠ secWebsocketProtocol := by decide
  constructor
  · intro h
    have hfind : ∀ name, (upgradeHeaders lib request headers).find name =
        (upgradeHeaders lib request' headers).find name := fun name => by rw [h]
    simp only [find_upgradeHeaders] at hfind
    have haccept := hfind secWebsocketAccept
    have hprotocol := hfind secWebsocketProtocol
    rw [if_neg hne, if_neg hne, if_pos rfl, if_pos rfl] at haccept
    rw [if_pos rfl, if_pos rfl] at hprotocol
    exact ⟨haccept, hprotocol⟩
  · rintro ⟨haccept, hprotocol⟩
    apply OrderedMap.ext_find
    intro name
    rw [find_upgradeHeaders, find_upgradeHeaders, haccept, hprotocol]

theorem isUpgradeWSProtocol_iff (h : HearsHeaders lib hp hs handle.mParser data)
    (htype : hp.parser_type = .request) :
    (handle.parsed lib data).isUpgradeWSProtocol = true ↔ AsksWebsocket hp hs := by
  have hheaders : (handle.parsed lib data).m_request.headers =
      (handle.mParser.feedRecvData lib data).2.messageHeaders := by
    rw [HttpParserData.messageHeaders, h.parser_type, htype]
    rfl
  rw [HttpHandle.isUpgradeWSProtocol, List.any_eq_true, hheaders]
  constructor
  · rintro ⟨⟨name, value⟩, hit, hupgrade⟩
    exact ⟨name, value, (h.find name).symm.trans ((OrderedMap.mem_entries_iff _).mp hit), hupgrade⟩
  · rintro ⟨name, value, hvalue, hupgrade⟩
    exact ⟨(name, value), (OrderedMap.mem_entries_iff _).mpr ((h.find name).trans hvalue), hupgrade⟩

theorem feedRecvData_upgrade (haccepts : Accepts lib handle data)
    (h : HearsHeaders lib hp hs handle.mParser data) (htype : hp.parser_type = .request) :
    ∃ request : HttpHeaders, (∀ name, request.find name = exactValue hp hs name) ∧
      (handle.feedRecvData lib data).map Fed.upgrade =
        some (if (handle.parsed lib data).isUpgradeWSProtocol then
          some (upgradeHeaders lib request hp.resp.headers) else none) := by
  refine ⟨(handle.mParser.feedRecvData lib data).2.messageHeaders, h.find, ?_⟩
  have hcomplete : isComplete (handle.parsed lib data).mParser.toHttpParserData = true := h.complete
  have hresp : (handle.parsed lib data).m_response = hp.resp := h.resp htype
  have hrequest : (handle.parsed lib data).m_request.headers =
      (handle.mParser.feedRecvData lib data).2.messageHeaders := by
    rw [HttpParserData.messageHeaders, h.parser_type, htype]
    rfl
  rw [haccepts.feedRecvData, if_pos hcomplete, ← hrequest, ← hresp]
  split_ifs
  · rfl
  · have hhttp : (handle.parsed lib data).m_serviceType = .http := haccepts.http
    have hplain := (sendHttpResponse_plain hhttp).2.1
    rw [Option.map_some, Fed.upgrade, hplain]

theorem sameUpgrade_iff (haccepts : Accepts lib handle data)
    (haccepts' : Accepts lib handle' data') (h : HearsHeaders lib hp hs handle.mParser data)
    (h' : HearsHeaders lib hp hs' handle'.mParser data') (htype : hp.parser_type = .request) :
    (handle.feedRecvData lib data).map Fed.upgrade =
        (handle'.feedRecvData lib data').map Fed.upgrade ↔ SpelledAlike lib hp hs hs' := by
  obtain ⟨request, hfind, hfed⟩ := feedRecvData_upgrade haccepts h htype
  obtain ⟨request', hfind', hfed'⟩ := feedRecvData_upgrade haccepts' h' htype
  have hasks := isUpgradeWSProtocol_iff h htype
  have hasks' := isUpgradeWSProtocol_iff h' htype
  rw [hfed, hfed', Option.some.injEq]
  have halike : SpelledAlike lib hp hs hs' ↔ (AsksWebsocket hp hs ↔ AsksWebsocket hp hs') ∧
      (AsksWebsocket hp hs → upgradeHeaders lib request hp.resp.headers =
        upgradeHeaders lib request' hp.resp.headers) := by
    rw [upgradeHeaders_eq_iff, hfind, hfind, hfind', hfind']
    exact ⟨fun h => ⟨h.asks, fun hask => ⟨h.key hask, h.protocol hask⟩⟩,
      fun h => ⟨h.1, fun hask => (h.2 hask).1, fun hask => (h.2 hask).2⟩⟩
  rw [halike, ← hasks, ← hasks']
  cases (handle.parsed lib data).isUpgradeWSProtocol <;>
    cases (handle'.parsed lib data').isUpgradeWSProtocol <;> simp

end Server

/-! ## The client -/

section Client

variable {lib : ClientLib σ} {hp : HttpParserData} {hs hs' : List HeaderPieces}
  {data data' rest : Bytes}

theorem withParser_self {s : WebSocketClient σ} {parser : HttpParser σ}
    (h : s.m_httpParser = parser) : { s with m_httpParser := parser } = s := by
  subst h
  rfl

theorem ioClose_withParser (s : WebSocketClient σ) (parser : HttpParser σ)
    (callbacks : List Callback) (after : After) :
    { s with m_httpParser := parser, callbacks := callbacks }.ioClose after =
      { s.ioClose after with m_httpParser := parser, callbacks := callbacks } := by
  have hgoOn : ∀ (t : WebSocketClient σ) (after : After),
      { t with m_httpParser := parser, callbacks := callbacks }.goOn after =
        { t.goOn after with m_httpParser := parser, callbacks := callbacks } := by
    intro t after
    cases after with
    | nothing | clientClose => rfl
    | upgrading session =>
        dsimp only [WebSocketClient.goOn]
        split_ifs <;> rfl
  have hran : ∀ (t : WebSocketClient σ) (r : Ran Unit),
      { t with m_httpParser := parser, callbacks := callbacks }.ran r after =
        { t.ran r after with m_httpParser := parser, callbacks := callbacks } := by
    intro t r
    simp only [WebSocketClient.ran, WebSocketClient.onClose]
    cases r.value with
    | none => rfl
    | some _ =>
        dsimp only
        split_ifs
        · rfl
        · exact hgoOn { t with conn := r.conn } after
        · exact hgoOn { t with conn := r.conn } after
  rw [WebSocketClient.ioClose, WebSocketClient.ioClose]
  dsimp only
  split_ifs
  · rw [hran]
  · rw [hran]

/-- The client that has heard a response opens, or closes the connection where no header is
spelled like the one it looks for. -/
theorem onread_switch {s : WebSocketClient σ} {parser : HttpParser σ}
    (hupgrading : s.m_wsState = .upgrading) (h : HearsSwitch lib hp hs parser data rest)
    (htype : hp.parser_type = .response) :
    ∃ (heard : HttpParser σ) (callbacks : List Callback),
      { s with m_httpParser := parser }.onread lib data =
        if (exactValue hp hs secWebsocketAccept).isNone then
          { s.ioClose .nothing with m_httpParser := heard, callbacks := callbacks }
        else
          ({ s with m_httpParser := heard, callbacks := callbacks }.opened.call s.session
            .onopen).push (.onopen rest) := by
  refine ⟨(parser.feedRecvData lib.toExternals data).2,
    s.callbacks ++ (lib.httpParserExecute parser.parser data).callbacks, ?_⟩
  have hfind := h.find secWebsocketAccept
  rw [HttpParserData.messageHeaders, h.parser_type, htype] at hfind
  dsimp only at hfind
  unfold WebSocketClient.onread WebSocketClient.parsed
  dsimp only
  rw [if_pos hupgrading, if_neg h.noError, if_pos h.complete, if_neg (not_not.mpr h.status), hfind,
    h.behind, ioClose_withParser]

theorem sameTransition_iff {s : WebSocketClient σ} {parser parser' : HttpParser σ}
    (hupgrading : s.m_wsState = .upgrading) (h : HearsSwitch lib hp hs parser data rest)
    (h' : HearsSwitch lib hp hs' parser' data' rest) (htype : hp.parser_type = .response) :
    SameTransition ({ s with m_httpParser := parser }.onread lib data)
        ({ s with m_httpParser := parser' }.onread lib data') ↔
      ((exactValue hp hs secWebsocketAccept).isSome ↔
        (exactValue hp hs' secWebsocketAccept).isSome) := by
  obtain ⟨heard, callbacks, hread⟩ := onread_switch hupgrading h htype
  obtain ⟨heard', callbacks', hread'⟩ := onread_switch hupgrading h' htype
  have hopenings : ∀ (found : Option Bytes) (heard : HttpParser σ) (callbacks : List Callback),
      (if found.isNone then
          { s.ioClose .nothing with m_httpParser := heard, callbacks := callbacks }
        else ({ s with m_httpParser := heard, callbacks := callbacks }.opened.call s.session
          .onopen).push (.onopen rest)).openings.length =
        s.openings.length + if found.isSome then 1 else 0 := by
    intro found heard callbacks
    cases found with
    | none => exact congrArg List.length (Spares.ioClose s .nothing).openings
    | some _ => exact List.length_append
  rw [hread, hread']
  generalize exactValue hp hs secWebsocketAccept = found
  generalize exactValue hp hs' secWebsocketAccept = found'
  constructor
  · intro hsame
    have hlength := congrArg List.length hsame.openings
    rw [List.length_map, List.length_map, hopenings, hopenings] at hlength
    cases found <;> cases found' <;> simp_all
  · intro hfound
    cases found with
    | none =>
        obtain rfl : found' = none := by simpa using hfound.not
        exact ⟨rfl, rfl⟩
    | some _ =>
        obtain ⟨value, rfl⟩ := Option.isSome_iff_exists.mp (hfound.mp rfl)
        refine ⟨rfl, ?_⟩
        simp [WebSocketClient.opened, WebSocketClient.call, WebSocketClient.push]

end Client

/-! ## Both ends -/

/-- Two requests, also two that differ in the case of names only, get the same upgrade exactly
where they ask for it alike and agree on the names that are looked up by their spelling; two
responses that switch protocols do the same to a client exactly where the accept header is
spelled as the client spells it in both or in neither. -/
theorem sameHandshake_iff (lib : ClientLib σ) (hp : HttpParserData) (hs hs' : List HeaderPieces)
    (data data' : Bytes) :
    (∀ handle handle' : HttpHandle σ, hp.parser_type = .request →
      Accepts lib.toExternals handle data → Accepts lib.toExternals handle' data' →
      HearsHeaders lib.toExternals hp hs handle.mParser data →
      HearsHeaders lib.toExternals hp hs' handle'.mParser data' →
        ((handle.feedRecvData lib.toExternals data).map Fed.upgrade =
            (handle'.feedRecvData lib.toExternals data').map Fed.upgrade ↔
          SpelledAlike lib.toExternals hp hs hs')) ∧
    ∀ (s : WebSocketClient σ) (parser parser' : HttpParser σ) (rest : Bytes),
      s.m_wsState = .upgrading → hp.parser_type = .response →
      HearsSwitch lib hp hs parser data rest → HearsSwitch lib hp hs' parser' data' rest →
        (SameTransition ({ s with m_httpParser := parser }.onread lib data)
            ({ s with m_httpParser := parser' }.onread lib data') ↔
          ((exactValue hp hs secWebsocketAccept).isSome ↔
            (exactValue hp hs' secWebsocketAccept).isSome)) :=
  ⟨fun _ _ htype haccepts haccepts' h h' => sameUpgrade_iff haccepts haccepts' h h' htype,
    fun _ _ _ _ hupgrading htype h h' => sameTransition_iff hupgrading h h' htype⟩

/-- The two headers of a handshake that matter, with their names in some spelling. -/
def handshakeHeaders (upgrade name : String) : List HeaderPieces :=
  [⟨[ascii upgrade], [ascii "websocket"]⟩, ⟨[ascii name], [ascii "a"]⟩]

def handshakeText (line upgrade name : String) : Bytes :=
  ascii line ++ ascii "\r\n" ++ ascii upgrade ++ ascii ": websocket\r\n" ++ ascii name ++
    ascii ": a\r\n\r\n"

/-- A request with such headers, as text and as callbacks. -/
def spelledRequest (upgrade key : String) : Bytes × List Callback :=
  (handshakeText "GET /chat HTTP/1.1" upgrade key,
    .messageBegin :: .url (ascii "/chat") ::
      (handshakeHeaders upgrade key).flatMap HeaderPieces.callbacks ++
        [.headersComplete, .messageComplete .get])

def spelledResponse (upgrade accept : String) : Bytes × List Callback :=
  (handshakeText "HTTP/1.1 101 Switching Protocols" upgrade accept,
    .messageBegin :: .status 101 ::
      (handshakeHeaders upgrade accept).flatMap HeaderPieces.callbacks ++
        [.headersComplete, .messageComplete .get])

/-- `http_parser` on these handshakes, and the answer to the key `a`. -/
def spelledParser : ClientLib Unit where
  toExternals :=
    { Externals.scripted
        [spelledRequest "Upgrade" "Sec-WebSocket-Key", spelledRequest "upgrade" "Sec-WebSocket-Key",
          spelledRequest "Upgrade" "sec-websocket-key",
          spelledResponse "Upgrade" "Sec-WebSocket-Accept",
          spelledResponse "upgrade" "Sec-WebSocket-Accept",
          spelledResponse "Upgrade" "sec-websocket-accept"] with
      wsEncodeKey := fun _ => ascii "FtgH8qqfEKHvZKEZYEWkYDhlXNY=" }
  httpErrno := fun _ => false

/-- A request or a response that the script knows. -/
def Scripted (message : Bytes × List Callback) : Prop :=
  spelledParser.httpParserExecute () message.1 = ⟨message.2, message.1.length, ()⟩

section Spelled

variable {parser : HttpParser Unit}

theorem Scripted.feedRecvData {message : Bytes × List Callback} (h : Scripted message)
    (parser : HttpParser Unit) :
    parser.feedRecvData spelledParser.toExternals message.1 =
      (message.1.length,
        { toHttpParserData := message.2.foldl onCallback parser.toHttpParserData, parser := () }) :=
  congrArg (fun execution : Execution Unit => (execution.nparsed,
    { toHttpParserData := execution.callbacks.foldl onCallback parser.toHttpParserData
      parser := execution.parser : HttpParser Unit })) h

/-- The headers behind the first two callbacks. -/
theorem Scripted.hears {text : Bytes} {first second : Callback} {upgrade name : String}
    (h : Scripted (text, first :: second ::
      (handshakeHeaders upgrade name).flatMap HeaderPieces.callbacks ++
        [.headersComplete, .messageComplete .get]))
    (parser : HttpParser Unit) :
    HearsHeaders spelledParser.toExternals
      ([first, second].foldl onCallback parser.toHttpParserData)
      (handshakeHeaders upgrade name) parser text := by
  have hfed := h.feedRecvData parser
  dsimp only at hfed
  refine ⟨by simp [handshakeHeaders], ⟨[.messageComplete .get], ?_, ?_⟩, ?_⟩
  · simp [Callback.Quiet, Callback.endsHeaders]
  · rw [hfed]
    rfl
  · rw [hfed]
    rfl

theorem hears_spelledResponse {upgrade accept : String}
    (h : Scripted (spelledResponse upgrade accept)) (htype : parser.parser_type = .response) :
    HearsSwitch spelledParser
      ([.messageBegin, .status 101].foldl onCallback parser.toHttpParserData)
      (handshakeHeaders upgrade accept) parser (spelledResponse upgrade accept).1 [] where
  toHearsHeaders := Scripted.hears h parser
  noError := by simp [spelledParser]
  status := by
    have hkeeps : ∀ hp, (handleHeader hp).resp.status_code = hp.resp.status_code := by
      intro hp
      rw [handleHeader]
      split_ifs
      · cases hp.parser_type <;> rfl
      · rfl
    rw [h.feedRecvData]
    simp [spelledResponse, handshakeHeaders, HeaderPieces.callbacks, onCallback, onMessageComplete,
      onHeadersComplete, onHeaderField, onHeaderValue, onStatus, onMessageBegin, hkeeps, htype]
  behind := by
    rw [h.feedRecvData]
    exact List.drop_length

end Spelled

/-- A server that has not received anything yet, and a client that waits for a response. -/
def spelledServer : HttpHandle Unit :=
  .setRouter spelledParser.toExternals .zeroed .new true

def spelledClient : WebSocketClient Unit :=
  ((WebSocketClient.new spelledParser .zeroed
    (loopInit 0 0 (fun _ => Timer.zero) fun _ => none)).open spelledParser (plainOpen .connected)).2

theorem hears_spelledRequest {upgrade key : String} (h : Scripted (spelledRequest upgrade key)) :
    HearsHeaders spelledParser.toExternals
      ([.messageBegin, .url (ascii "/chat")].foldl onCallback
        spelledServer.mParser.toHttpParserData)
      (handshakeHeaders upgrade key) spelledServer.mParser (spelledRequest upgrade key).1 :=
  Scripted.hears h _

theorem spelledClient_waits :
    spelledClient.m_wsState = .upgrading ∧ spelledClient.m_httpParser.parser_type = .response := by
  decide +kernel

theorem scripted_key : Scripted (spelledRequest "Upgrade" "Sec-WebSocket-Key") :=
  rfl

theorem scripted_accept : Scripted (spelledResponse "Upgrade" "Sec-WebSocket-Accept") :=
  rfl

/-- The spelling of `Upgrade` makes no difference. -/
theorem sameHandshake_iff_upgrade :
    (spelledServer.feedRecvData spelledParser.toExternals
          (spelledRequest "Upgrade" "Sec-WebSocket-Key").1).map Fed.upgrade =
        (spelledServer.feedRecvData spelledParser.toExternals
          (spelledRequest "upgrade" "Sec-WebSocket-Key").1).map Fed.upgrade ∧
      SameTransition
        (spelledClient.onread spelledParser
          (spelledResponse "Upgrade" "Sec-WebSocket-Accept").1)
        (spelledClient.onread spelledParser
          (spelledResponse "upgrade" "Sec-WebSocket-Accept").1) := by
  constructor
  · have hlower : Scripted (spelledRequest "upgrade" "Sec-WebSocket-Key") := rfl
    apply ((sameHandshake_iff spelledParser _ _ _ _ _).1 spelledServer spelledServer rfl
      ⟨rfl, rfl⟩ ⟨rfl, rfl⟩ (hears_spelledRequest scripted_key) (hears_spelledRequest hlower)).mpr
    refine ⟨iff_of_true ?_ ?_, fun _ => ?_, fun _ => ?_⟩
    · exact ⟨ascii "Upgrade", ascii "websocket", by decide +kernel, by decide +kernel⟩
    · exact ⟨ascii "upgrade", ascii "websocket", by decide +kernel, by decide +kernel⟩
    · decide +kernel
    · decide +kernel
  · have hlower : Scripted (spelledResponse "upgrade" "Sec-WebSocket-Accept") := rfl
    obtain ⟨hupgrading, htype⟩ := spelledClient_waits
    have hsame := ((sameHandshake_iff spelledParser _ _ _ _ _).2 spelledClient
      spelledClient.m_httpParser spelledClient.m_httpParser [] hupgrading
      ((foldl_keeps _ _).1.trans htype) (hears_spelledResponse scripted_accept htype)
      (hears_spelledResponse hlower htype)).mpr (by decide +kernel)
    rw [withParser_self rfl] at hsame
    exact hsame

/-- A key or an accept header in small letters is not seen. -/
theorem not_sameHandshake_lowercase :
    List.Forall₂ HeaderPieces.Recased (handshakeHeaders "Upgrade" "Sec-WebSocket-Key")
        (handshakeHeaders "Upgrade" "sec-websocket-key") ∧
      (spelledServer.feedRecvData spelledParser.toExternals
          (spelledRequest "Upgrade" "Sec-WebSocket-Key").1).map Fed.upgrade ≠
        (spelledServer.feedRecvData spelledParser.toExternals
          (spelledRequest "Upgrade" "sec-websocket-key").1).map Fed.upgrade ∧
      List.Forall₂ HeaderPieces.Recased (handshakeHeaders "Upgrade" "Sec-WebSocket-Accept")
        (handshakeHeaders "Upgrade" "sec-websocket-accept") ∧
      ¬ SameTransition
        (spelledClient.onread spelledParser
          (spelledResponse "Upgrade" "Sec-WebSocket-Accept").1)
        (spelledClient.onread spelledParser
          (spelledResponse "Upgrade" "sec-websocket-accept").1) := by
  refine ⟨?_, fun hsame => ?_, ?_, fun hsame => ?_⟩
  · exact .cons ⟨rfl, rfl⟩ (.cons ⟨by decide +kernel, rfl⟩ .nil)
  · have hlower : Scripted (spelledRequest "Upgrade" "sec-websocket-key") := rfl
    have halike := (sameUpgrade_iff ⟨rfl, rfl⟩ ⟨rfl, rfl⟩ (hears_spelledRequest scripted_key)
      (hears_spelledRequest hlower) rfl).mp hsame
    have hkey := halike.key
      ⟨ascii "Upgrade", ascii "websocket", by decide +kernel, by decide +kernel⟩
    revert hkey
    decide +kernel
  · exact .cons ⟨rfl, rfl⟩ (.cons ⟨by decide +kernel, rfl⟩ .nil)
  · have hlower : Scripted (spelledResponse "Upgrade" "sec-websocket-accept") := rfl
    obtain ⟨hupgrading, htype⟩ := spelledClient_waits
    have hparser : spelledClient.m_httpParser = spelledClient.m_httpParser := rfl
    rw [← withParser_self hparser] at hsame
    have hfound := (sameTransition_iff hupgrading (hears_spelledResponse scripted_accept htype)
      (hears_spelledResponse hlower htype) ((foldl_keeps _ _).1.trans htype)).mp hsame
    revert hfound
    decide +kernel

end LibConn.Http
