import LibConn.Verification.Http.Headers
import LibConn.Verification.Http.OneResponse
import LibConn.Verification.Sessions.Segments
import LibConn.Verification.WebSocket.Wire

/-! # The upgrade

An upgrade request and the frames behind it share one byte stream. `http_parser` stops at the
end of the request; what follows it in the same segment is taken for an error. -/

namespace LibConn.Http

open LibConn.Run
open LibConn.Peeling (Drains Feeds)
open LibConn.WebSocket (WireFrame)

variable {σ : Type}

/-! ## Statements -/

/-- What `http_parser` is assumed to do with the segments of an upgrade request: it takes the
segments before the last whole and makes the callbacks `cs` on the way to the end of the
headers, where it stops and returns the number of bytes up to there. -/
inductive ReportsUpgrade (lib : Externals σ) (method : HttpMethod) :
    σ → Bytes → List Bytes → List Callback → Prop where
  | part {st st' data request segments cs cs'} (more : request ≠ [])
      (takes : lib.httpParserExecute st data = ⟨cs, data.length, st'⟩)
      (rest : ReportsUpgrade lib method st' request segments cs') :
      ReportsUpgrade lib method st (data ++ request) (data :: segments) (cs ++ cs')
  | last {st request beyond segments cs}
      (calls : (lib.httpParserExecute st (request ++ beyond)).callbacks =
        cs ++ [.headersComplete, .messageComplete method])
      (stops : (lib.httpParserExecute st (request ++ beyond)).nparsed = request.length) :
      ReportsUpgrade lib method st request ((request ++ beyond) :: segments) cs

/-- The upgrade loses nothing: once the request has arrived the connection is open and the
response is sent, and in the end every frame has been handed over, in order. -/
structure Seamless (lib : Externals σ) (world : Session σ → Answer) (s : Session σ)
    (request : Bytes) (frames : List WireFrame) (segments : List Bytes) : Prop where
  switched : ∀ k, request <+: (segments.take k).flatten →
    ∃ t, exec (Session.deliver lib world) s (segments.take k) = some t ∧ t.closed = false ∧
      ∃ response : HttpResponse, (byHandle t.written).head? = some (response.dump wsHeader)
  handed : ∃ t, exec (Session.deliver lib world) s segments = some t ∧ t.misused = false ∧
    t.closed = false ∧ t.handled = frames.map WireFrame.message ∧
      t.calls = .onopen true :: (frames.map WireFrame.message).flatMap serviceCalls

/-- A segment ends where the request does, the pieces of its headers amount to
`Upgrade: websocket`, and no frame is a CLOSE frame. -/
structure SegmentsApart (d : Delivery) (request : Bytes) (frames : List WireFrame)
    (segments : List Bytes) : Prop where
  apart : ∃ k, (segments.take k).flatten = request
  asks : d.AsksUpgrade
  noClose : ∀ f ∈ frames, f.message.opcode ≠ 0x8

/-! ## Up to the end of the request -/

/-- A connection that has seen the callbacks `cs` of the request and no more. -/
structure Waiting (lib : Externals σ) (fresh : Uninitialised) (router : HttpRouter)
    (s : Session σ) (cs : List Callback) : Prop where
  defined : s.misused = false
  isOpen : s.closed = false
  todo : s.todo = []
  http : s.handle.m_serviceType = .http
  service : s.handle.m_wsService = true
  buffer : s.handle.m_wsBuffer = []
  handled : s.handled = []
  calls : s.calls = []
  written : s.written = []
  data : s.handle.mParser.toHttpParserData =
    cs.foldl onCallback (Session.start lib fresh router).handle.mParser.toHttpParserData

section Request

variable {lib : Externals σ} {world : Session σ → Answer} {fresh : Uninitialised}
  {router : HttpRouter} {s : Session σ} {cs : List Callback}

theorem waiting_start (lib : Externals σ) (fresh : Uninitialised) (router : HttpRouter) :
    Waiting lib fresh router (Session.start lib fresh router) [] :=
  ⟨rfl, rfl, rfl, rfl, rfl, rfl, rfl, rfl, rfl, rfl⟩

/-- The callbacks of a request on the way to the end of its headers complete nothing. -/
theorem incomplete_of_unmarked
    (h : ∀ c ∈ cs, c.completes = false ∧ c.endsHeaders = false) {hp : HttpParserData}
    (hhp : hp.state ≠ .messageComplete) : (cs.foldl onCallback hp).state ≠ .messageComplete := by
  intro hcomplete
  obtain ⟨head, chunks, rfl, -⟩ := awaitsBody_of_complete (fun c hc => (h c hc).1) hhp hcomplete
  have hends := (h .headersComplete (List.mem_append_right _ List.mem_cons_self)).2
  cases hends

theorem Waiting.part (h : Waiting lib fresh router s cs) (world : Session σ → Answer)
    {data : Bytes} {cs' : List Callback} {st : σ}
    (takes : lib.httpParserExecute s.handle.mParser.parser data = ⟨cs', data.length, st⟩)
    (hunmarked : ∀ c ∈ cs ++ cs', c.completes = false ∧ c.endsHeaders = false) :
    ∃ t, s.deliver lib world data = some t ∧ Waiting lib fresh router t (cs ++ cs') ∧
      t.handle.mParser.parser = st := by
  have hdata : (s.handle.parsed lib data).mParser.toHttpParserData =
      (cs ++ cs').foldl onCallback
        (Session.start lib fresh router).handle.mParser.toHttpParserData := by
    rw [HttpHandle.parsed_data, HttpHandle.callbacksFor, takes, h.data, List.foldl_append]
  have hstate : (s.handle.parsed lib data).mParser.state ≠ .messageComplete := by
    have hstart : (Session.start lib fresh router).handle.mParser.state ≠ .messageComplete := by
      change HttpParserState.startReqOrRes ≠ .messageComplete
      decide
    rw [hdata]
    exact incomplete_of_unmarked hunmarked hstart
  have hfed : s.handle.feedRecvData lib data =
      some ⟨data.length, [], s.handle.parsed lib data⟩ := by
    have haccepts : Accepts lib s.handle data := ⟨h.http, by rw [takes]⟩
    exact haccepts.incomplete hstate
  have hrecv := step_recv_eq h.defined h.isOpen h.todo hfed
  rw [if_neg (not_not.mpr rfl)] at hrecv
  refine ⟨s.received ⟨data.length, [], s.handle.parsed lib data⟩, ?_, ?_, ?_⟩
  · rw [Session.deliver, hrecv]
    rfl
  · exact ⟨h.defined, h.isOpen, rfl, h.http, h.service, h.buffer, h.handled, h.calls, h.written,
      hdata⟩
  · change (lib.httpParserExecute s.handle.mParser.parser data).parser = st
    rw [takes]

theorem ReportsUpgrade.arrive {method : HttpMethod} {st : σ} {request : Bytes}
    {segments : List Bytes} {cs' : List Callback}
    (h : ReportsUpgrade lib method st request segments cs') (hne : request ≠ [])
    (hs : Waiting lib fresh router s cs) (hst : s.handle.mParser.parser = st)
    (hunmarked : ∀ c ∈ cs ++ cs', c.completes = false ∧ c.endsHeaders = false)
    (world : Session σ → Answer) :
    ∃ before rest beyond after t cs₁ cs₂, segments = before ++ (rest ++ beyond) :: after ∧
      before.flatten ++ rest = request ∧ rest ≠ [] ∧ cs ++ cs' = cs₁ ++ cs₂ ∧
      exec (Session.deliver lib world) s before = some t ∧ Waiting lib fresh router t cs₁ ∧
      (lib.httpParserExecute t.handle.mParser.parser (rest ++ beyond)).callbacks =
        cs₂ ++ [.headersComplete, .messageComplete method] ∧
      (lib.httpParserExecute t.handle.mParser.parser (rest ++ beyond)).nparsed = rest.length := by
  induction h generalizing s cs with
  | @part st st' data request segments cs₀ cs' more takes rest ih =>
      have hfirst : ∀ c ∈ cs ++ cs₀, c.completes = false ∧ c.endsHeaders = false := by
        intro c hc
        apply hunmarked c
        rw [← List.append_assoc]
        exact List.mem_append_left _ hc
      obtain ⟨t, hdeliver, ht, hparser⟩ := hs.part world (hst ▸ takes) hfirst
      obtain ⟨before, last, beyond, after, u, cs₁, cs₂, rfl, hrequest, hlast, hcs, hexec, hu,
        hcalls, hstops⟩ := ih more ht hparser (by rwa [List.append_assoc])
      refine ⟨data :: before, last, beyond, after, u, cs₁, cs₂, rfl, ?_, hlast, ?_, ?_, hu,
        hcalls, hstops⟩
      · rw [List.flatten_cons, List.append_assoc, hrequest]
      · rw [← hcs, List.append_assoc]
      · rw [exec, hdeliver]
        exact hexec
  | @last st request beyond segments cs' calls stops =>
      subst hst
      exact ⟨[], request, beyond, segments, s, cs, cs', rfl, rfl, hne, rfl, rfl, hs, calls, stops⟩

/-! ## The end of the request -/

theorem Waiting.beyond (h : Waiting lib fresh router s cs) {data : Bytes} {t : Session σ}
    (hstops : (lib.httpParserExecute s.handle.mParser.parser data).nparsed ≠ data.length)
    (ht : s.deliver lib world data = some t) : t.closed = true := by
  have hfed : s.handle.feedRecvData lib data = some ⟨-1, [], s.handle.parsed lib data⟩ := by
    rw [feedRecvData_http lib data h.http, if_pos hstops]
  have hresult : (-1 : ℤ) ≠ (data.length : ℤ) := by omega
  have hrecv := step_recv_eq h.defined h.isOpen h.todo hfed
  have hclose : (s.received ⟨-1, [], s.handle.parsed lib data⟩).close =
      { s.received ⟨-1, [], s.handle.parsed lib data⟩ with closed := true, todo := [] } :=
    close_plain h.http h.isOpen
  rw [if_pos hresult, hclose] at hrecv
  rw [Session.deliver, hrecv] at ht
  obtain rfl := Option.some.inj ht
  rfl

/-- The request is there to its last byte and nothing else is. -/
structure Complete (handle : HttpHandle σ) (lib : Externals σ) (d : Delivery) (data : Bytes) :
    Prop where
  all : (lib.httpParserExecute handle.mParser.parser data).nparsed = data.length
  complete : isComplete (handle.parsed lib data).mParser.toHttpParserData = true
  headers : (handle.parsed lib data).mParser.req.headers =
    setAll .empty (storedPairs (d.headers.flatMap HeaderPieces.pairs) [])

theorem Waiting.complete (h : Waiting lib fresh router s cs) {d : Delivery}
    (hnamed : ∀ h ∈ d.headers, h.name ≠ []) {cs' : List Callback} (hcs : cs ++ cs' = d.head)
    {data : Bytes} {method : HttpMethod}
    (hcalls : (lib.httpParserExecute s.handle.mParser.parser data).callbacks =
      cs' ++ [.headersComplete, .messageComplete method])
    (hall : (lib.httpParserExecute s.handle.mParser.parser data).nparsed = data.length) :
    Complete s.handle lib d data := by
  have hdata : (s.handle.parsed lib data).mParser.toHttpParserData =
      onMessageComplete (onHeadersComplete (d.head.foldl onCallback
        (Session.start lib fresh router).handle.mParser.toHttpParserData)) method := by
    rw [HttpHandle.parsed_data, HttpHandle.callbacksFor, hcalls, h.data, ← hcs, List.foldl_append,
      List.foldl_append]
    rfl
  refine ⟨hall, by rw [hdata]; rfl, ?_⟩
  rw [hdata]
  exact ((collects_setRouter lib fresh router true).head hnamed).headersComplete

theorem Complete.isUpgrade_iff {handle : HttpHandle σ} {d : Delivery} {data : Bytes}
    (h : Complete handle lib d data) :
    (handle.parsed lib data).isUpgradeWSProtocol = true ↔ d.AsksUpgrade := by
  rw [HttpHandle.isUpgradeWSProtocol, HttpHandle.m_request, h.headers, List.any_eq_true]
  rfl

theorem finish_upgrade (lib : Externals σ) (calm : ∀ s, (world s).Calm) {r : Session σ}
    {response : Bytes} {request : HttpRequest} (defined : r.misused = false)
    (isOpen : r.closed = false) (websocket : r.handle.m_serviceType = .websocket)
    (service : r.handle.m_wsService = true) (listens : r.handle.m_wsOnMessage = true)
    (htodo : r.todo = [.sent response, .opened request]) :
    ∃ t, r.finish lib world r.todo.length = some t ∧ Talking t [] ∧ t.handle = r.handle ∧
      t.handled = r.handled ∧ t.calls = r.calls ++ [.onopen true] ∧
      byHandle t.written = byHandle r.written ++ [response] := by
  let u : Session σ :=
    { r with
      todo := [.opened request]
      written := r.written ++ [(.handle, response)]
      m_wsChannel := true }
  have hsent : r.step lib (.work (world r)) = some u := by
    rw [step_work_eq defined htodo, perform_sent_upgraded (by exact websocket), (calm r).keeps,
      write_open (by exact isOpen), use_open (by exact isOpen)]
  obtain ⟨frames, hframes⟩ := channelCalls_quiet (calm u).quiet
    (s := { u with todo := [] }.called (.onopen true)) isOpen
  let v : Session σ :=
    { u with
      todo := []
      calls := r.calls ++ [.onopen true]
      written := u.written ++ frames.map fun frame => (.service, frame) }
  have hopened : u.step lib (.work (world u)) = some v := by
    have hdefined : u.misused = false := defined
    rw [step_work_eq hdefined rfl, Session.perform]
    dsimp only
    rw [hframes, use_open (by exact isOpen)]
    rfl
  refine ⟨v, ?_, ⟨defined, isOpen, websocket, service, listens, rfl, rfl⟩, rfl, rfl, rfl, ?_⟩
  · rw [htodo]
    change ((r.step lib (.work (world r))).bind fun u =>
      (u.step lib (.work (world u))).bind some) = some _
    rw [hsent, Option.bind_some, hopened]
    rfl
  · exact (byHandle_service _ _).trans (byHandle_handle _ _)

theorem Waiting.upgrade (calm : ∀ s, (world s).Calm) (h : Waiting lib fresh router s cs)
    {d : Delivery} {data : Bytes} (hc : Complete s.handle lib d data) (hasks : d.AsksUpgrade) :
    ∃ t, s.deliver lib world data = some t ∧ Talking t [] ∧ t.handle.m_wsBuffer = [] ∧
      t.handled = [] ∧ t.calls = [.onopen true] ∧
      ∃ response : HttpResponse, byHandle t.written = [response.dump wsHeader] := by
  let handle := s.handle.parsed lib data
  have hfed : s.handle.feedRecvData lib data =
      some ⟨data.length, [.sent ((handle.upgradeResponse lib).dump wsHeader),
        .opened handle.m_request], handle.switched lib⟩ := by
    rw [feedRecvData_http lib data h.http, if_neg (not_not.mpr hc.all),
      if_pos hc.complete, if_pos (hc.isUpgrade_iff.mpr hasks),
      switchWSProtocol_eq lib handle h.service]
  have hrecv := step_recv_eq h.defined h.isOpen h.todo hfed
  rw [if_neg (not_not.mpr rfl)] at hrecv
  obtain ⟨t, hfinish, ht, hhandle, hhandled, hcalls, hwritten⟩ :=
    finish_upgrade lib calm (r := s.received ⟨data.length, [.sent
      ((handle.upgradeResponse lib).dump wsHeader), .opened handle.m_request],
      handle.switched lib⟩) h.defined h.isOpen rfl h.service rfl rfl
  refine ⟨t, ?_, ht, ?_, hhandled.trans h.handled, ?_, handle.upgradeResponse lib, ?_⟩
  · rw [Session.deliver, hrecv]
    exact hfinish
  · rw [hhandle]
    exact h.buffer
  · rw [hcalls]
    exact congrArg (· ++ [ServiceCall.onopen true]) h.calls
  · rw [hwritten]
    exact congrArg (fun written => byHandle written ++ _) h.written

theorem finish_plain (lib : Externals σ) (calm : ∀ s, (world s).Calm) {effects : List Effect}
    {r : Session σ} (defined : r.misused = false) (isOpen : r.closed = false)
    (http : r.handle.m_serviceType = .http) (htodo : r.todo = effects)
    (hplain : ∀ e ∈ effects, e.Plain) :
    ∃ t, r.finish lib world effects.length = some t ∧
      byHandle t.written = byHandle r.written ++ responses effects := by
  induction effects generalizing r with
  | nil => exact ⟨r, rfl, (List.append_nil _).symm⟩
  | cons effect effects ih =>
      have hrest : ∀ e ∈ effects, e.Plain := fun e he => hplain e (List.mem_cons_of_mem _ he)
      have hstep : r.step lib (.work (world r)) =
          some ({ r with todo := effects }.perform (world r) effect) :=
        step_work_eq defined htodo
      have hskip : {r with todo := effects }.perform (world r) effect = { r with todo := effects } →
          responses [effect] = [] → ∃ t, r.finish lib world (effect :: effects).length = some t ∧
            byHandle t.written = byHandle r.written ++ responses (effect :: effects) := by
        intro hperform hnone
        obtain ⟨t, hfinish, hwritten⟩ :=
          ih (r := { r with todo := effects }) defined isOpen http rfl hrest
        refine ⟨t, ?_, ?_⟩
        · rw [List.length_cons, Session.finish, hstep, hperform]
          exact hfinish
        · rw [hwritten, ← List.singleton_append, responses_append, hnone, List.nil_append]
      cases effect with
      | opened _ => exact (hplain _ List.mem_cons_self).elim
      | message _ => exact (hplain _ List.mem_cons_self).elim
      | routed _ _ => exact hskip rfl rfl
      | invoked _ _ _ => exact hskip rfl rfl
      | sent data =>
          rw [perform_sent_plain (by exact http), (calm r).keeps, write_open (by exact isOpen)]
            at hstep
          obtain ⟨t, hfinish, hwritten⟩ := ih defined isOpen http rfl hrest
            (r := { r with todo := effects, written := r.written ++ [(Writer.handle, data)] })
          refine ⟨t, ?_, ?_⟩
          · rw [List.length_cons, Session.finish, hstep]
            exact hfinish
          · rw [hwritten, byHandle_handle, List.append_assoc]
            rfl

theorem dump_http_ne_ws (response response' : HttpResponse) :
    response.dump httpHeader ≠ response'.dump wsHeader := by
  intro h
  have htake := congrArg (List.take 12) h
  simp only [HttpResponse.dump, List.append_assoc] at htake
  rw [List.take_append_of_le_length (by decide), List.take_append_of_le_length (by decide)]
    at htake
  revert htake
  decide

theorem responses_sendHttpResponse {handle : HttpHandle σ} (http : handle.m_serviceType = .http) :
    responses handle.sendHttpResponse.1 = [] ∨
      ∃ response : HttpResponse,
        responses handle.sendHttpResponse.1 = [response.dump httpHeader] := by
  cases hroute : handle.m_router.getHandleFunc handle.mParser.method
      (cStr handle.mParser.url) with
  | none =>
      rw [sendHttpResponse_unrouted handle http hroute]
      exact .inl rfl
  | some func =>
      rw [sendHttpResponse_routed handle http hroute]
      exact .inr ⟨_, rfl⟩

theorem Waiting.ignored (calm : ∀ s, (world s).Calm) (h : Waiting lib fresh router s cs)
    {d : Delivery} {data : Bytes} (hc : Complete s.handle lib d data) (hasks : ¬ d.AsksUpgrade)
    {t : Session σ} (ht : s.deliver lib world data = some t) (response : HttpResponse) :
    (byHandle t.written).head? ≠ some (response.dump wsHeader) := by
  let handle := s.handle.parsed lib data
  have hhttp : handle.m_serviceType = .http := h.http
  have hfed : s.handle.feedRecvData lib data =
      some ⟨data.length, handle.sendHttpResponse.1, handle.sendHttpResponse.2⟩ := by
    rw [feedRecvData_http lib data h.http, if_neg (not_not.mpr hc.all), if_pos hc.complete,
      if_neg (mt hc.isUpgrade_iff.mp hasks)]
  have hrecv := step_recv_eq h.defined h.isOpen h.todo hfed
  rw [if_neg (not_not.mpr rfl)] at hrecv
  obtain ⟨hplain, hkeeps, -⟩ := sendHttpResponse_plain hhttp
  obtain ⟨u, hfinish, hwritten⟩ := finish_plain lib calm
    (r := s.received ⟨data.length, handle.sendHttpResponse.1, handle.sendHttpResponse.2⟩)
    h.defined h.isOpen hkeeps rfl hplain
  rw [Session.deliver, hrecv] at ht
  obtain rfl : u = t := Option.some.inj (hfinish.symm.trans ht)
  have hresponses : byHandle u.written = responses handle.sendHttpResponse.1 := by
    rw [hwritten]
    exact congrArg (fun written => byHandle written ++ _) h.written
  rw [hresponses]
  rcases responses_sendHttpResponse hhttp with hnone | ⟨other, hone⟩
  · rw [hnone]
    exact (Option.some_ne_none _).symm
  · rw [hone]
    exact fun hsame => dump_http_ne_ws other response (Option.some.inj hsame)

end Request

/-! ## The upgrade and the frames behind it -/

/-- The segments up to the one that ends the request have been received; `beyond` follows the
request in its segment. -/
structure Arrived (lib : Externals σ) (world : Session σ → Answer) (fresh : Uninitialised)
    (router : HttpRouter) (d : Delivery) (request : Bytes) (segments before after : List Bytes)
    (rest beyond : Bytes) (s : Session σ) : Prop where
  segments_eq : segments = before ++ (rest ++ beyond) :: after
  request_eq : before.flatten ++ rest = request
  rest_ne : rest ≠ []
  reached : exec (Session.deliver lib world) (Session.start lib fresh router) before = some s
  waiting : ∃ cs, Waiting lib fresh router s cs
  stops : (lib.httpParserExecute s.handle.mParser.parser (rest ++ beyond)).nparsed = rest.length
  complete : beyond = [] → Complete s.handle lib d rest

section Arrival

variable {lib : Externals σ} {world : Session σ → Answer} {fresh : Uninitialised}
  {router : HttpRouter} {d : Delivery} {request : Bytes} {frames : List WireFrame}
  {segments before after : List Bytes} {rest beyond : Bytes} {s : Session σ}

theorem exists_arrived (world : Session σ → Answer) (fresh : Uninitialised) (router : HttpRouter)
    (hnamed : ∀ h ∈ d.headers, h.name ≠ []) (hrequest : request ≠ [])
    (hreports : ReportsUpgrade lib d.method lib.httpParserInit request segments d.head) :
    ∃ before after rest beyond s,
      Arrived lib world fresh router d request segments before after rest beyond s := by
  obtain ⟨before, rest, beyond, after, s, cs₁, cs₂, hsegments, hbefore, hrest, hcs, hexec, hs,
    hcalls, hstops⟩ := hreports.arrive hrequest
      (waiting_start lib fresh router) rfl d.head_unmarked world
  refine ⟨before, after, rest, beyond, s, hsegments, hbefore, hrest, hexec, ⟨cs₁, hs⟩, hstops, ?_⟩
  rintro rfl
  rw [List.append_nil] at hcalls hstops
  exact hs.complete hnamed hcs.symm hcalls hstops

variable (h : Arrived lib world fresh router d request segments before after rest beyond s)

include h

theorem Arrived.take_succ :
    segments.take (before.length + 1) = before ++ [rest ++ beyond] ∧
      (segments.take (before.length + 1)).flatten = request ++ beyond := by
  have htake : segments.take (before.length + 1) = before ++ [rest ++ beyond] := by
    rw [h.segments_eq, List.take_append, List.take_of_length_le (Nat.le_succ _),
      Nat.add_sub_cancel_left]
    rfl
  refine ⟨htake, ?_⟩
  rw [htake, List.flatten_append, List.flatten_singleton, ← List.append_assoc, h.request_eq]

theorem Arrived.lt_of_prefix {k : ℕ} (hk : request <+: (segments.take k).flatten) :
    before.length < k := by
  by_contra hle
  have htake : (segments.take k).flatten <+: before.flatten := by
    rw [h.segments_eq, List.take_append_of_le_length (by omega)]
    conv_rhs => rw [← List.take_append_drop k before, List.flatten_append]
    exact List.prefix_append _ _
  have hlength := (hk.trans htake).length_le
  rw [← h.request_eq, List.length_append] at hlength
  have hpos := List.length_pos_of_ne_nil h.rest_ne
  omega

theorem Arrived.apart_iff : (∃ k, (segments.take k).flatten = request) ↔ beyond = [] := by
  constructor
  · rintro ⟨k, hk⟩
    have hlt : before.length < k := by
      apply h.lt_of_prefix
      exact ⟨[], by rw [List.append_nil, hk]⟩
    have htake : (segments.take (before.length + 1)).flatten <+: (segments.take k).flatten := by
      obtain ⟨more, hmore⟩ := List.take_prefix_take_left (l := segments) hlt
      rw [← hmore, List.flatten_append]
      exact List.prefix_append _ _
    have hlength := htake.length_le
    rw [hk, h.take_succ.2, List.length_append] at hlength
    exact List.length_eq_zero_iff.mp (by omega)
  · rintro rfl
    exact ⟨before.length + 1, by rw [h.take_succ.2, List.append_nil]⟩

theorem Arrived.exec_succ :
    exec (Session.deliver lib world) (Session.start lib fresh router)
      (segments.take (before.length + 1)) = s.deliver lib world (rest ++ beyond) := by
  rw [h.take_succ.1, exec_concat, h.reached, Option.bind_some]

theorem Arrived.exec_all : exec (Session.deliver lib world) (Session.start lib fresh router)
      segments = (s.deliver lib world (rest ++ beyond)).bind fun t =>
        exec (Session.deliver lib world) t after := by
  rw [h.segments_eq, exec_append, h.reached, Option.bind_some]
  rfl

theorem Arrived.after_flatten (hbeyond : beyond = [])
    (hsegments : segments.flatten = request ++ frames.flatMap WireFrame.bytes) :
    after.flatten = frames.flatMap WireFrame.bytes := by
  rw [h.segments_eq, List.flatten_append, List.flatten_cons, hbeyond, List.append_nil,
    ← List.append_assoc, h.request_eq] at hsegments
  exact List.append_cancel_left hsegments

theorem Arrived.seamless (calm : ∀ s, (world s).Calm)
    (hsegments : segments.flatten = request ++ frames.flatMap WireFrame.bytes)
    (hapart : SegmentsApart d request frames segments) :
    Seamless lib world (Session.start lib fresh router) request frames segments := by
  obtain rfl := h.apart_iff.mp hapart.apart
  obtain ⟨cs, hs⟩ := h.waiting
  obtain ⟨t, hdeliver, ht, hbuffer, hhandled, hcalls, response, hwritten⟩ :=
    hs.upgrade calm (h.complete rfl) hapart.asks
  rw [← List.append_nil rest] at hdeliver
  have hfeeds := WireFrame.feeds (h.after_flatten rfl hsegments)
  rw [← hbuffer] at hfeeds
  have hclose : ∀ m ∈ frames.map WireFrame.message, m.opcode ≠ 0x8 := by
    intro m hm
    obtain ⟨f, hf, rfl⟩ := List.mem_map.mp hm
    exact hapart.noClose f hf
  constructor
  · intro k hk
    have hlt := h.lt_of_prefix hk
    obtain ⟨j, rfl⟩ := Nat.exists_eq_add_of_le hlt
    have htake : segments.take (before.length + 1 + j) =
        segments.take (before.length + 1) ++ after.take j := by
      have hdrop : segments.drop (before.length + 1) = after := by
        rw [h.segments_eq, List.drop_append, List.drop_of_length_le (Nat.le_succ _),
          Nat.add_sub_cancel_left]
        rfl
      rw [List.take_add, hdrop]
    rw [← List.take_append_drop j after] at hfeeds
    obtain ⟨ys, zs, b, hmessages, hys, -⟩ := hfeeds.split
    obtain ⟨u, hexec, hu, -, hheard⟩ := ht.feeds lib calm hys
      fun m hm => hclose m (hmessages ▸ List.mem_append_left _ hm)
    refine ⟨u, ?_, hu.isOpen, response, ?_⟩
    · rw [htake, exec_append, h.exec_succ, hdeliver]
      exact hexec
    · rw [hheard.written, hwritten]
      rfl
  · obtain ⟨u, hexec, hu, -, hheard⟩ := ht.feeds lib calm hfeeds hclose
    refine ⟨u, ?_, hu.defined, hu.isOpen, ?_, ?_⟩
    · rw [h.exec_all, hdeliver]
      exact hexec
    · rw [hheard.handled, hhandled, List.nil_append]
    · rw [hheard.calls, hcalls]
      rfl

theorem Arrived.apart (calm : ∀ s, (world s).Calm)
    (hsegments : segments.flatten = request ++ frames.flatMap WireFrame.bytes)
    (hseamless : Seamless lib world (Session.start lib fresh router) request frames segments) :
    SegmentsApart d request frames segments := by
  obtain ⟨cs, hs⟩ := h.waiting
  obtain ⟨t, hexec, hopen, response, hresponse⟩ := hseamless.switched (before.length + 1)
    (h.take_succ.2 ▸ List.prefix_append _ _)
  rw [h.exec_succ] at hexec
  obtain rfl : beyond = [] := by
    by_contra hne
    have hpos := List.length_pos_of_ne_nil hne
    have hstops : (lib.httpParserExecute s.handle.mParser.parser (rest ++ beyond)).nparsed ≠
        (rest ++ beyond).length := by
      rw [h.stops, List.length_append]
      omega
    rw [hs.beyond hstops hexec] at hopen
    cases hopen
  rw [List.append_nil] at hexec
  have hasks : d.AsksUpgrade := by
    by_contra hplain
    exact hs.ignored calm (h.complete rfl) hplain hexec response hresponse
  refine ⟨h.apart_iff.mpr rfl, hasks, fun f hf h8 => ?_⟩
  obtain ⟨u, hdeliver, hu, hbuffer, -⟩ := hs.upgrade calm (h.complete rfl) hasks
  obtain ⟨v, hall, hdefined, -⟩ := hseamless.handed
  rw [h.exec_all, List.append_nil, hdeliver, Option.bind_some] at hall
  have hfeeds := WireFrame.feeds (h.after_flatten rfl hsegments)
  rw [← hbuffer] at hfeeds
  have hmisused := hu.feeds_close lib calm hfeeds ⟨f.message, List.mem_map_of_mem hf, h8⟩ hall
  rw [hdefined] at hmisused
  cases hmisused

end Arrival

/-- With a world that keeps the connection open, the upgrade is seamless exactly when no
segment holds bytes of both protocols, the headers arrive in pieces that still amount to
`Upgrade: websocket`, and the peer sends no CLOSE frame. -/
theorem seamless_iff (lib : Externals σ) (fresh : Uninitialised) (router : HttpRouter)
    (world : Session σ → Answer) (calm : ∀ s, (world s).Calm) (d : Delivery)
    (hnamed : ∀ h ∈ d.headers, h.name ≠ []) (request : Bytes) (hrequest : request ≠ [])
    (frames : List WireFrame) (segments : List Bytes)
    (hsegments : segments.flatten = request ++ frames.flatMap WireFrame.bytes)
    (hreports : ReportsUpgrade lib d.method lib.httpParserInit request segments d.head) :
    Seamless lib world (Session.start lib fresh router) request frames segments ↔
      SegmentsApart d request frames segments := by
  obtain ⟨before, after, rest, beyond, s, h⟩ :=
    exists_arrived world fresh router hnamed hrequest hreports
  exact ⟨h.apart calm hsegments, h.seamless calm hsegments⟩

/-- The text `a` in an unmasked frame. -/
def textFrame : WireFrame where
  b₀ := 0x81
  b₁ := 0x01
  extended := []
  mask := fun _ => 0
  data := [0x61]
  declares := by decide
  fits := by decide

/-- A frame cut in two behind a request that is not cut. -/
theorem seamless_iff_textFrame :
    Seamless upgradeParser (fun _ => .ok) upgradeStart upgradeRequest [textFrame]
      [upgradeRequest, [0x81, 0x01], [0x61]] := by
  have hreports := @ReportsUpgrade.last Unit upgradeParser .get () upgradeRequest []
    [[0x81, 0x01], [0x61]] upgradeDelivery.head rfl rfl
  rw [List.append_nil] at hreports
  apply (seamless_iff upgradeParser .zeroed .new (fun _ => .ok) (fun _ => calm_ok)
    upgradeDelivery (by decide) upgradeRequest (by decide) [textFrame] _ rfl hreports).mpr
  refine ⟨⟨1, rfl⟩, ⟨(ascii "Upgrade", ascii "websocket"), by decide, by decide⟩, ?_⟩
  intro f hf
  rw [List.mem_singleton.mp hf]
  decide

/-- The request in two segments, the first of which ends in the name of a header. -/
def cutSegments : List Bytes :=
  [ascii "GET /chat HTTP/1.1\r\nConnection: Upgrade\r\nUpg", ascii "rade: websocket\r\n\r\n"]

def cutDelivery : Delivery :=
  { upgradeDelivery with
    headers := [⟨[ascii "Connection"], [ascii "Upgrade"]⟩,
      ⟨[ascii "Upg", ascii "rade"], [ascii "websocket"]⟩] }

def cutParser : Externals Unit :=
  .scripted [
    (ascii "GET /chat HTTP/1.1\r\nConnection: Upgrade\r\nUpg", cutDelivery.head.take 5),
    (ascii "rade: websocket\r\n\r\n",
      cutDelivery.head.drop 5 ++ [.headersComplete, .messageComplete .get])]

/-- A frame behind the request in its segment makes `on_recv` close the connection, and a
request whose header name is cut gets no response. -/
theorem not_seamless_shared_or_cut :
    (ReportsUpgrade upgradeParser .get () upgradeRequest [upgradeRequest ++ textFrame.bytes]
        upgradeDelivery.head ∧
      ¬ Seamless upgradeParser (fun _ => .ok) upgradeStart upgradeRequest [textFrame]
        [upgradeRequest ++ textFrame.bytes]) ∧
    (ReportsUpgrade cutParser .get () upgradeRequest cutSegments cutDelivery.head ∧
      ¬ Seamless cutParser (fun _ => .ok) (.start cutParser .zeroed .new) upgradeRequest []
        cutSegments) := by
  refine ⟨⟨.last rfl rfl, fun h => ?_⟩, ?_, fun h => ?_⟩
  · obtain ⟨t, hexec, hopen, -⟩ := h.switched 1 (List.prefix_append _ _)
    have hclosed : (exec (Session.deliver upgradeParser fun _ => .ok) upgradeStart
        [upgradeRequest ++ textFrame.bytes]).map Session.closed = some true := rfl
    rw [List.take_succ_cons, List.take_zero] at hexec
    rw [hexec, Option.map_some, hopen] at hclosed
    cases hclosed
  · have hrequest : upgradeRequest =
        ascii "GET /chat HTTP/1.1\r\nConnection: Upgrade\r\nUpg" ++
          ascii "rade: websocket\r\n\r\n" := by
      decide +kernel
    have hlast := @ReportsUpgrade.last Unit cutParser .get ()
      (ascii "rade: websocket\r\n\r\n") [] [] (cutDelivery.head.drop 5) rfl rfl
    rw [List.append_nil] at hlast
    rw [hrequest]
    exact @ReportsUpgrade.part Unit cutParser .get () ()
      (ascii "GET /chat HTTP/1.1\r\nConnection: Upgrade\r\nUpg") _ _ (cutDelivery.head.take 5) _
      (by decide) rfl hlast
  · obtain ⟨t, hexec, -, response, hresponse⟩ := h.switched 2 (by decide)
    have hnone : (exec (Session.deliver cutParser fun _ => .ok) (.start cutParser .zeroed .new)
        cutSegments).map (fun t => (byHandle t.written).head?) = some none := rfl
    change exec _ _ cutSegments = some t at hexec
    rw [hexec, Option.map_some, hresponse] at hnone
    cases hnone

end LibConn.Http
