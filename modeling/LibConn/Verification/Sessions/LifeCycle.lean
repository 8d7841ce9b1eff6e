import LibConn.Model.WebSocketServer
import LibConn.Shared.Run
import LibConn.Verification.Http.Calls
import LibConn.Verification.WebSocket.Decoding

/-! # The life cycle of a session

The callbacks of a session come in order as long as nothing closes the connection from
within `feedRecvData`. What closes it there deletes the handle that `feedRecvData` goes on
to use. -/

namespace LibConn.Http

open LibConn.Run
open LibConn.Peeling (Drains)

variable {σ : Type}

/-! ## Statements -/

/-- `onopen`, any number of `onmessage` and, once the connection is over, `onclose`, all
with the channel. -/
def Conversation (calls : List ServiceCall) (ended : Bool) : Prop :=
  ∃ messages : List WebSocket.Message,
    calls = .onopen true :: messages.map (fun m => .onmessage true m.msg m.opcode) ++
      if ended then [.onclose true] else []

/-- Nothing is used after it is deleted, and a connection that is upgraded has had the
callbacks of a conversation, or is about to have the first. -/
structure LifeCycle (s : Session σ) : Prop where
  defined : s.misused = false
  plain : s.handle.m_serviceType = .http → s.calls = []
  upgraded : s.handle.m_serviceType = .websocket →
    s.calls = [] ∧ s.closed = false ∧ s.todo ≠ [] ∨ Conversation s.calls s.closed

/-- Whether the call closes the connection. -/
def ChannelCall.closes : ChannelCall → Bool
  | .send _ _ closes => closes
  | .close => true

/-- The service leaves the connection open. -/
def Answer.Quiet (answer : Answer) : Prop :=
  ∀ call ∈ answer.calls, call.closes = false

/-- The effect leaves an upgraded connection open. -/
def Keeps (service : ServiceType) (answer : Answer) : Effect → Prop
  | .sent _ => service = .websocket → answer.closes = false
  | .opened _ => answer.Quiet
  | .message m =>
      (m.opcode = 0x1 ∨ m.opcode = 0x2 → answer.Quiet) ∧ m.opcode ≠ 0x8 ∧
        (m.opcode = 0x9 → answer.closes = false)
  | _ => True

/-- The decoder stays in its buffer, and no effect of `feedRecvData` closes an upgraded
connection. -/
def SessionGuard (s : Session σ) : SessionAction → Prop
  | .recv data => s.handle.m_serviceType = .websocket →
      ∃ messages rest, Drains WebSocket.peel (s.handle.m_wsBuffer ++ data) messages rest
  | .work answer => ∀ effect ∈ s.todo.head?, Keeps s.handle.m_serviceType answer effect
  | _ => True

/-! ## Calls on the channel -/

section Channel

variable {s : Session σ}

theorem write_open (h : s.closed = false) (writer : Writer) (data : Bytes) :
    s.write writer data false = { s with written := s.written ++ [(writer, data)] } := by
  rw [Session.write, h]
  rfl

theorem write_closing (h : s.closed = false) (writer : Writer) (data : Bytes) :
    s.write writer data true = { s with written := s.written ++ [(writer, data)] }.close := by
  rw [Session.write, h]
  rfl

theorem handleClose_closed (s : Session σ) : s.handleClose.closed = s.closed := by
  rw [Session.handleClose]
  split
  · rfl
  · split <;> rfl

theorem handleClose_handle (s : Session σ) : s.handleClose.handle = s.handle := by
  rw [Session.handleClose]
  split
  · rfl
  · split <;> rfl

theorem close_handle (s : Session σ) : s.close.handle = s.handle := by
  rw [Session.close]
  split_ifs
  · rfl
  · exact handleClose_handle _

theorem write_handle (s : Session σ) (writer : Writer) (data : Bytes) (closes : Bool) :
    (s.write writer data closes).handle = s.handle := by
  rw [Session.write]
  split_ifs
  · rfl
  · exact close_handle _
  · rfl

theorem close_closed (s : Session σ) : s.close.closed = true := by
  rw [Session.close]
  split_ifs with h
  · exact h
  · exact handleClose_closed _

theorem write_closes (s : Session σ) (writer : Writer) (data : Bytes) :
    (s.write writer data true).closed = true := by
  rw [Session.write]
  split_ifs with h hcloses
  · exact h
  · exact close_closed _
  · exact absurd rfl hcloses

theorem channelCall_closes (s : Session σ) {call : ChannelCall} (h : call.closes = true) :
    (s.channelCall call).closed = true := by
  cases call with
  | send data opcode closes =>
      obtain rfl : closes = true := h
      exact write_closes _ _ _
  | close => exact close_closed s

theorem write_of_closed (h : s.closed = true) (writer : Writer) (data : Bytes) (closes : Bool) :
    s.write writer data closes = s := by
  rw [Session.write, h]
  rfl

theorem channelCalls_of_closed (h : s.closed = true) (calls : List ChannelCall) :
    s.channelCalls calls = s := by
  induction calls with
  | nil => rfl
  | cons call calls ih =>
      have hcall : s.channelCall call = s := by
        cases call with
        | send data opcode closes => exact write_of_closed h _ _ _
        | close => rw [Session.channelCall, Session.close, h]; rfl
      rw [Session.channelCalls, List.foldl_cons, hcall]
      exact ih

theorem channelCalls_quiet {calls : List ChannelCall} (hquiet : ∀ call ∈ calls, call.closes = false)
    {s : Session σ} (h : s.closed = false) :
    ∃ frames : List Bytes, s.channelCalls calls =
      { s with written := s.written ++ frames.map fun frame => (.service, frame) } := by
  induction calls generalizing s with
  | nil => exact ⟨[], by rw [List.map_nil, List.append_nil]; rfl⟩
  | cons call calls ih =>
      cases call with
      | close => cases hquiet .close List.mem_cons_self
      | send data opcode closes =>
          obtain rfl : closes = false := hquiet _ List.mem_cons_self
          let frame := WebSocket.buildWsFrame data (fun _ => 0) false opcode true
          have hsend : s.channelCall (.send data opcode false) =
              { s with written := s.written ++ [(.service, frame)] } :=
            write_open h .service frame
          have hopen : (s.channelCall (.send data opcode false)).closed = false := by
            rw [hsend]
            exact h
          obtain ⟨frames, hframes⟩ :=
            ih (fun c hc => hquiet c (List.mem_cons_of_mem _ hc)) hopen
          refine ⟨frame :: frames, hframes.trans ?_⟩
          rw [hsend, List.map_cons]
          simp only [List.append_assoc, List.singleton_append]

theorem channelCalls_closes {calls : List ChannelCall}
    (hcloses : ¬ ∀ call ∈ calls, call.closes = false) (s : Session σ) :
    (s.channelCalls calls).closed = true := by
  induction calls generalizing s with
  | nil => exact absurd (fun _ hc => absurd hc List.not_mem_nil) hcloses
  | cons call calls ih =>
      by_cases hcall : call.closes = true
      · have hclosed := channelCall_closes s hcall
        have hrest := channelCalls_of_closed hclosed calls
        rw [Session.channelCalls, List.foldl_cons]
        exact (congrArg Session.closed hrest).trans hclosed
      · apply ih _ (s.channelCall call)
        intro hall
        apply hcloses
        intro c hc
        rcases List.mem_cons.mp hc with rfl | hc
        · exact eq_false_of_ne_true hcall
        · exact hall c hc

end Channel

/-! ## What `feedRecvData` has in store -/

/-- An effect of a plain request. -/
def Effect.Plain : Effect → Prop
  | .opened _ => False
  | .message _ => False
  | _ => True

/-- The response to an upgrade request. -/
def HttpHandle.upgradeResponse (lib : Externals σ) (handle : HttpHandle σ) : HttpResponse :=
  { handle.m_response with
    status_code := statusSwitchingProtocols
    headers := upgradeHeaders lib handle.m_request.headers handle.m_response.headers }

/-- The handle after the upgrade. -/
def HttpHandle.switched (lib : Externals σ) (handle : HttpHandle σ) : HttpHandle σ :=
  { handle.withMessages (handle.m_request, handle.upgradeResponse lib) with
    m_serviceType := .websocket
    m_wsOnMessage := true }

theorem switchWSProtocol_eq (lib : Externals σ) (handle : HttpHandle σ)
    (hservice : handle.m_wsService = true) :
    handle.switchWSProtocol lib =
      ([.sent ((handle.upgradeResponse lib).dump wsHeader), .opened handle.m_request],
        handle.switched lib) := by
  have hopened : (if handle.m_wsService then [Effect.opened handle.m_request] else []) =
      [.opened handle.m_request] := if_pos hservice
  exact congrArg
    (fun opened => ([.sent ((handle.upgradeResponse lib).dump wsHeader)] ++ opened,
      handle.switched lib)) hopened

theorem sendHttpResponse_plain {handle : HttpHandle σ} (h : handle.m_serviceType = .http) :
    (∀ e ∈ handle.sendHttpResponse.1, e.Plain) ∧
      handle.sendHttpResponse.2.m_serviceType = .http ∧
      handle.sendHttpResponse.2.m_wsService = handle.m_wsService := by
  rw [HttpHandle.sendHttpResponse, h]
  dsimp only [HttpHandle.invokeHttpFunc]
  cases handle.m_router.getHandleFunc handle.mParser.method (cStr handle.mParser.url) with
  | none =>
      refine ⟨fun e he => ?_, h, rfl⟩
      rw [List.mem_singleton.mp he]
      trivial
  | some func =>
      refine ⟨fun e he => ?_, h, rfl⟩
      rcases List.mem_append.mp he with he | he
      · rcases List.mem_cons.mp he with rfl | he
        · trivial
        · rw [List.mem_singleton.mp he]
          trivial
      · rw [List.mem_singleton.mp he]
        trivial

/-- What a segment makes of a connection that is not upgraded yet. -/
inductive PlainFed (handle : HttpHandle σ) (data : Bytes) (fed : Fed σ) : Prop where
  | stays (http : fed.handle.m_serviceType = .http)
      (service : fed.handle.m_wsService = handle.m_wsService)
      (effects : ∀ e ∈ fed.effects, e.Plain)
  | upgrades (result : fed.result = (data.length : ℤ))
      (websocket : fed.handle.m_serviceType = .websocket)
      (service : fed.handle.m_wsService = handle.m_wsService)
      (listens : fed.handle.m_wsOnMessage = true)
      (effects : ∃ response request, fed.effects = [.sent response, .opened request])

theorem plainFed_feedRecvData {handle : HttpHandle σ} (lib : Externals σ) (data : Bytes)
    (http : handle.m_serviceType = .http) (hservice : handle.m_wsService = true) :
    ∃ fed, handle.feedRecvData lib data = some fed ∧ PlainFed handle data fed := by
  have hparsed : (handle.parsed lib data).m_serviceType = .http := http
  have hkept : (handle.parsed lib data).m_wsService = true := hservice
  rw [feedRecvData_http lib data http]
  split_ifs
  · exact ⟨_, rfl, .stays hparsed rfl fun e he => absurd he List.not_mem_nil⟩
  · rw [switchWSProtocol_eq lib _ hkept]
    exact ⟨_, rfl, .upgrades rfl rfl rfl rfl ⟨_, _, rfl⟩⟩
  · obtain ⟨heffects, hhttp, hsame⟩ := sendHttpResponse_plain hparsed
    exact ⟨_, rfl, .stays hhttp hsame heffects⟩
  · exact ⟨_, rfl, .stays hparsed rfl fun e he => absurd he List.not_mem_nil⟩

theorem feedRecvData_websocket {handle : HttpHandle σ} (lib : Externals σ) (data : Bytes)
    (websocket : handle.m_serviceType = .websocket) :
    handle.feedRecvData lib data =
      match WebSocket.feedRecvData handle.m_wsOnMessage handle.m_wsBuffer data with
      | .returned messages m_buffer =>
          some ⟨data.length, messages.map .message, { handle with m_wsBuffer := m_buffer }⟩
      | .overrun => none
      | .running => none := by
  rw [HttpHandle.feedRecvData]
  split
  · next http => exact absurd (websocket.symm.trans http) (by decide)
  · rfl

theorem feedRecvData_drains {handle : HttpHandle σ} (lib : Externals σ) (data : Bytes)
    (websocket : handle.m_serviceType = .websocket) (listens : handle.m_wsOnMessage = true)
    {messages : List WebSocket.Message} {rest : Bytes}
    (h : Drains WebSocket.peel (handle.m_wsBuffer ++ data) messages rest) :
    handle.feedRecvData lib data =
      some ⟨data.length, messages.map .message, { handle with m_wsBuffer := rest }⟩ := by
  rw [feedRecvData_websocket lib data websocket, listens,
    (WebSocket.feedRecvData_iff_drains _ _ _ _).mpr h]

theorem drains_of_feedRecvData {handle : HttpHandle σ} {lib : Externals σ} {data : Bytes}
    (websocket : handle.m_serviceType = .websocket) (listens : handle.m_wsOnMessage = true)
    {fed : Fed σ} (h : handle.feedRecvData lib data = some fed) :
    ∃ messages rest, Drains WebSocket.peel (handle.m_wsBuffer ++ data) messages rest := by
  rw [feedRecvData_websocket lib data websocket, listens] at h
  split at h
  · next messages rest hreturned =>
      exact ⟨messages, rest, (WebSocket.feedRecvData_iff_drains _ _ _ _).mp hreturned⟩
  · cases h
  · cases h

/-! ## Steps -/

/-- Where a session stands between two steps. -/
inductive Stage (s : Session σ) : Prop where
  | plain (http : s.handle.m_serviceType = .http) (channel : s.m_wsChannel = false)
      (calls : s.calls = []) (todo : ∀ e ∈ s.todo, e.Plain)
  | upgrading (websocket : s.handle.m_serviceType = .websocket) (isOpen : s.closed = false)
      (calls : s.calls = []) (todo : ∃ response request, s.todo = [.sent response, .opened request])
  | opening (websocket : s.handle.m_serviceType = .websocket) (isOpen : s.closed = false)
      (channel : s.m_wsChannel = true) (calls : s.calls = [])
      (todo : ∃ request, s.todo = [.opened request])
  | talking (websocket : s.handle.m_serviceType = .websocket) (channel : s.m_wsChannel = true)
      (calls : Conversation s.calls s.closed) (todo : ∀ e ∈ s.todo, ∃ m, e = .message m)
      (idle : s.closed = true → s.todo = [])

/-- The invariant of a session that meets the guard. -/
structure InOrder (s : Session σ) : Prop where
  defined : s.misused = false
  service : s.handle.m_wsService = true
  listens : s.handle.m_serviceType = .websocket → s.handle.m_wsOnMessage = true
  stage : Stage s

theorem InOrder.lifeCycle {s : Session σ} (h : InOrder s) : LifeCycle s := by
  refine ⟨h.defined, fun http => ?_, fun websocket => ?_⟩
  · cases h.stage with
    | plain _ _ calls _ => exact calls
    | upgrading websocket | opening websocket | talking websocket =>
        exact absurd (http.symm.trans websocket) (by decide)
  · cases h.stage with
    | plain http => exact absurd (http.symm.trans websocket) (by decide)
    | upgrading _ isOpen calls todo =>
        obtain ⟨response, request, htodo⟩ := todo
        exact .inl ⟨calls, isOpen, by rw [htodo]; exact List.cons_ne_nil _ _⟩
    | opening _ isOpen _ calls todo =>
        obtain ⟨request, htodo⟩ := todo
        exact .inl ⟨calls, isOpen, by rw [htodo]; exact List.cons_ne_nil _ _⟩
    | talking _ _ calls _ _ => exact .inr calls

theorem inOrder_start (lib : Externals σ) (fresh : Uninitialised) (router : HttpRouter) :
    InOrder (Session.start lib fresh router) :=
  ⟨rfl, rfl, nofun, .plain rfl rfl rfl fun _ he => absurd he List.not_mem_nil⟩

section Steps

variable {s t : Session σ} {lib : Externals σ}

/-- The session while the effects of a segment are still to happen. -/
def Session.received (s : Session σ) (fed : Fed σ) : Session σ :=
  { s with handle := fed.handle, todo := fed.effects }

theorem step_recv {data : Bytes} (h : s.step lib (.recv data) = some t) :
    s.closed = false ∧ s.todo = [] ∧
      match s.handle.feedRecvData lib data with
      | none => t = { s with misused := true }
      | some fed =>
          t = if fed.result ≠ (data.length : ℤ) then (s.received fed).close
            else s.received fed := by
  simp only [Session.step] at h
  split_ifs at h with hmisused hbusy
  simp only [Bool.or_eq_true, Bool.not_eq_true', List.isEmpty_eq_false_iff, not_or,
    not_not] at hbusy
  refine ⟨eq_false_of_ne_true hbusy.1, hbusy.2, ?_⟩
  cases hfed : s.handle.feedRecvData lib data with
  | none =>
      rw [hfed] at h
      exact (Option.some.inj h).symm
  | some fed =>
      rw [hfed] at h
      exact (Option.some.inj h).symm

theorem step_work {answer : Answer} (h : s.step lib (.work answer) = some t) :
    ∃ effect rest, s.todo = effect :: rest ∧ t = { s with todo := rest }.perform answer effect := by
  simp only [Session.step] at h
  split_ifs at h
  split at h
  · cases h
  · next effect rest htodo => exact ⟨effect, rest, htodo, (Option.some.inj h).symm⟩

theorem step_channel {call : ChannelCall} (h : s.step lib (.channel call) = some t) :
    s.closed = false ∧ s.todo = [] ∧ s.m_wsChannel = true ∧ t = s.channelCall call := by
  simp only [Session.step] at h
  split_ifs at h with hmisused hbusy
  simp only [Bool.or_eq_true, Bool.not_eq_true', List.isEmpty_eq_false_iff, not_or,
    not_not, Bool.not_eq_false] at hbusy
  exact ⟨eq_false_of_ne_true hbusy.1.1, hbusy.1.2, hbusy.2, (Option.some.inj h).symm⟩

theorem step_ioClose (h : s.step lib .ioClose = some t) :
    s.closed = false ∧ s.todo = [] ∧ t = s.close := by
  simp only [Session.step] at h
  split_ifs at h with hmisused hbusy
  simp only [Bool.or_eq_true, Bool.not_eq_true', List.isEmpty_eq_false_iff, not_or,
    not_not] at hbusy
  exact ⟨eq_false_of_ne_true hbusy.1, hbusy.2, (Option.some.inj h).symm⟩

theorem close_plain (http : s.handle.m_serviceType = .http) (h : s.closed = false) :
    s.close = { s with closed := true, todo := [] } := by
  rw [Session.close, h]
  simp only [Session.handleClose, http, Bool.false_eq_true, ite_false]

theorem close_upgraded (websocket : s.handle.m_serviceType = .websocket)
    (service : s.handle.m_wsService = true) (h : s.closed = false) :
    s.close = { s with
      closed := true
      todo := []
      calls := s.calls ++ [.onclose s.m_wsChannel] } := by
  rw [Session.close, h]
  simp only [Session.handleClose, websocket, service, Session.called, Bool.false_eq_true,
    ite_false, ite_true]

theorem Conversation.open_of {calls : List ServiceCall} {ended : Bool}
    (h : Conversation calls ended) (hopen : ended = false) : ∃ messages : List WebSocket.Message,
      calls = .onopen true :: messages.map fun m => .onmessage true m.msg m.opcode := by
  obtain ⟨messages, rfl⟩ := h
  rw [hopen]
  exact ⟨messages, List.append_nil _⟩

theorem conversation_opened : Conversation [.onopen true] false :=
  ⟨[], rfl⟩

theorem Conversation.message {calls : List ServiceCall} (h : Conversation calls false)
    (m : WebSocket.Message) :
    Conversation (calls ++ [.onmessage true m.msg m.opcode]) false := by
  obtain ⟨messages, rfl⟩ := h.open_of rfl
  refine ⟨messages ++ [m], ?_⟩
  rw [List.map_append]
  exact (List.append_nil _).symm

theorem Conversation.ended {calls : List ServiceCall} (h : Conversation calls false) :
    Conversation (calls ++ [.onclose true]) true := by
  obtain ⟨messages, rfl⟩ := h.open_of rfl
  exact ⟨messages, rfl⟩

theorem InOrder.close_http (h : InOrder s) (http : s.handle.m_serviceType = .http)
    (hopen : s.closed = false) : InOrder s.close := by
  rw [close_plain http hopen]
  cases h.stage with
  | plain _ channel calls _ =>
      refine ⟨h.defined, h.service, h.listens, .plain http channel calls ?_⟩
      exact fun _ he => absurd he List.not_mem_nil
  | upgrading websocket | opening websocket | talking websocket =>
      exact absurd (http.symm.trans websocket) (by decide)

theorem InOrder.close (h : InOrder s) (hopen : s.closed = false) (hidle : s.todo = []) :
    InOrder s.close := by
  cases h.stage with
  | plain http => exact h.close_http http hopen
  | upgrading _ _ _ todo =>
      obtain ⟨response, request, htodo⟩ := todo
      exact absurd (htodo.symm.trans hidle) (List.cons_ne_nil _ _)
  | opening _ _ _ _ todo =>
      obtain ⟨request, htodo⟩ := todo
      exact absurd (htodo.symm.trans hidle) (List.cons_ne_nil _ _)
  | talking websocket channel calls todo idle =>
      rw [close_upgraded websocket h.service hopen]
      rw [hopen] at calls
      refine ⟨h.defined, h.service, h.listens, .talking websocket channel ?_ ?_ fun _ => rfl⟩
      · rw [channel]
        exact calls.ended
      · exact fun _ he => absurd he List.not_mem_nil

theorem InOrder.record (h : InOrder s) (handled : List WebSocket.Message)
    (written : List (Writer × Bytes)) :
    InOrder { s with handled := handled, written := written } := by
  refine ⟨h.defined, h.service, h.listens, ?_⟩
  cases h.stage with
  | plain http channel calls todo => exact .plain http channel calls todo
  | upgrading websocket isOpen calls todo => exact .upgrading websocket isOpen calls todo
  | opening websocket isOpen channel calls todo =>
      exact .opening websocket isOpen channel calls todo
  | talking websocket channel calls todo idle =>
      exact .talking websocket channel calls todo idle

theorem InOrder.write (h : InOrder s) (hopen : s.closed = false) (hidle : s.todo = [])
    (writer : Writer) (data : Bytes) (closes : Bool) : InOrder (s.write writer data closes) := by
  cases closes with
  | false =>
      rw [write_open hopen]
      exact h.record _ _
  | true =>
      rw [write_closing hopen]
      exact (h.record s.handled _).close hopen hidle

theorem InOrder.channelCall (h : InOrder s) (hopen : s.closed = false) (hidle : s.todo = [])
    (call : ChannelCall) : InOrder (s.channelCall call) := by
  cases call with
  | send data opcode closes => exact h.write hopen hidle _ _ _
  | close => exact h.close hopen hidle

theorem InOrder.recv (h : InOrder s) {data : Bytes} (hg : SessionGuard s (.recv data))
    (hstep : s.step lib (.recv data) = some t) : InOrder t := by
  obtain ⟨hopen, hidle, hfed⟩ := step_recv hstep
  cases h.stage with
  | plain http channel calls todo =>
      obtain ⟨fed, hsome, hplain⟩ := plainFed_feedRecvData lib data http h.service
      rw [hsome] at hfed
      obtain rfl := hfed
      cases hplain with
      | stays http' service' effects =>
          have hkeep : InOrder (s.received fed) := by
            refine ⟨h.defined, service'.trans h.service, ?_, .plain http' channel calls effects⟩
            exact fun websocket => absurd (http'.symm.trans websocket) (by decide)
          split_ifs
          · exact hkeep.close_http http' hopen
          · exact hkeep
      | upgrades result websocket service' listens effects =>
          rw [if_neg (not_not.mpr result)]
          exact ⟨h.defined, service'.trans h.service, fun _ => listens,
            .upgrading websocket hopen calls effects⟩
  | upgrading _ _ _ todo =>
      obtain ⟨response, request, htodo⟩ := todo
      exact absurd (htodo.symm.trans hidle) (List.cons_ne_nil _ _)
  | opening _ _ _ _ todo =>
      obtain ⟨request, htodo⟩ := todo
      exact absurd (htodo.symm.trans hidle) (List.cons_ne_nil _ _)
  | talking websocket channel calls todo idle =>
      obtain ⟨messages, rest, hdrains⟩ := hg websocket
      rw [feedRecvData_drains lib data websocket (h.listens websocket) hdrains] at hfed
      obtain rfl := hfed
      rw [if_neg (not_not.mpr rfl)]
      refine ⟨h.defined, h.service, h.listens, .talking websocket channel calls ?_ ?_⟩
      · intro e he
        obtain ⟨m, -, rfl⟩ := List.mem_map.mp he
        exact ⟨m, rfl⟩
      · exact fun hclosed => absurd (hopen.symm.trans hclosed) Bool.false_ne_true

/-- A decoder that leaves its buffer is undefined behaviour. -/
theorem InOrder.recv_guard (h : InOrder s) {data : Bytes}
    (hstep : s.step lib (.recv data) = some t) (ht : t.misused = false) :
    SessionGuard s (.recv data) := by
  intro websocket
  obtain ⟨-, -, hfed⟩ := step_recv hstep
  cases hsome : s.handle.feedRecvData lib data with
  | none =>
      rw [hsome] at hfed
      obtain rfl := hfed
      cases ht
  | some fed => exact drains_of_feedRecvData websocket (h.listens websocket) hsome

theorem use_open (hopen : s.closed = false) : s.use = s := by
  have hsame : (s.misused || s.closed) = s.misused := by rw [hopen, Bool.or_false]
  exact congrArg (fun misused => { s with misused := misused }) hsame

theorem open_of_use (h : s.use.misused = false) : s.closed = false := by
  rw [Session.use] at h
  exact (Bool.or_eq_false_iff.mp h).2

theorem perform_sent_plain (http : s.handle.m_serviceType = .http) (answer : Answer)
    (data : Bytes) : s.perform answer (.sent data) = s.write .handle data answer.closes := by
  have hhttp : (s.write .handle data answer.closes).handle.m_serviceType = .http := by
    rw [write_handle]
    exact http
  rw [Session.perform]
  simp only [hhttp]

theorem perform_sent_upgraded (websocket : s.handle.m_serviceType = .websocket) (answer : Answer)
    (data : Bytes) :
    s.perform answer (.sent data) =
      { (s.write .handle data answer.closes).use with m_wsChannel := true } := by
  have hwebsocket : (s.write .handle data answer.closes).handle.m_serviceType = .websocket := by
    rw [write_handle]
    exact websocket
  rw [Session.perform]
  simp only [hwebsocket]

/-- An effect of a plain request, once `todo` holds the rest. -/
theorem InOrder.perform_plain (h : InOrder s) (http : s.handle.m_serviceType = .http)
    {effect : Effect} (hplain : effect.Plain) (answer : Answer) :
    InOrder (s.perform answer effect) := by
  cases effect with
  | opened _ => exact hplain.elim
  | message _ => exact hplain.elim
  | routed _ _ => exact h
  | invoked _ _ _ => exact h
  | sent data =>
      rw [perform_sent_plain http]
      cases hclosed : s.closed with
      | true =>
          rw [write_of_closed hclosed]
          exact h
      | false =>
          cases answer.closes with
          | false =>
              rw [write_open hclosed]
              exact h.record _ _
          | true =>
              rw [write_closing hclosed]
              exact (h.record s.handled _).close_http http hclosed

/-- What `onMessage` tells the service of a frame. -/
def serviceCalls (m : WebSocket.Message) : List ServiceCall :=
  if m.opcode = 0x1 ∨ m.opcode = 0x2 then [.onmessage true m.msg m.opcode] else []

/-- A PONG frame of the server. -/
def pong (data : Bytes) : Bytes :=
  WebSocket.buildWsFrame data (fun _ => 0) false 0xA true

/-- What `onMessage` answers to a frame that is not CLOSE. -/
def pongs (m : WebSocket.Message) : List Bytes :=
  if m.opcode = 0x9 then [pong []] else []

/-- The writes that the handle itself asked for. -/
def byHandle (written : List (Writer × Bytes)) : List Bytes :=
  written.filterMap fun write => if write.1 = .handle then some write.2 else none

theorem byHandle_service (written : List (Writer × Bytes)) (frames : List Bytes) :
    byHandle (written ++ frames.map fun frame => (.service, frame)) = byHandle written := by
  have hnone : byHandle (frames.map fun frame => (Writer.service, frame)) = [] := by
    apply List.filterMap_eq_nil_iff.mpr
    intro write hwrite
    obtain ⟨frame, -, rfl⟩ := List.mem_map.mp hwrite
    rfl
  rw [byHandle, List.filterMap_append]
  exact (congrArg (_ ++ ·) hnone).trans (List.append_nil _)

theorem byHandle_handle (written : List (Writer × Bytes)) (data : Bytes) :
    byHandle (written ++ [(.handle, data)]) = byHandle written ++ [data] :=
  List.filterMap_append

theorem onMessage_keeps (hopen : s.closed = false) (service : s.handle.m_wsService = true)
    (channel : s.m_wsChannel = true) {answer : Answer} {m : WebSocket.Message}
    (hkeeps : Keeps s.handle.m_serviceType answer (.message m)) :
    ∃ written, byHandle written = byHandle s.written ++ pongs m ∧
      s.onMessage answer m =
        { s with
          handled := s.handled ++ [m]
          calls := s.calls ++ serviceCalls m
          written := written } := by
  obtain ⟨hquiet, hclose, hping⟩ := hkeeps
  rw [Session.onMessage, serviceCalls, pongs]
  dsimp only
  by_cases hdata : m.opcode = 0x1 ∨ m.opcode = 0x2
  · have h9 : m.opcode ≠ 0x9 := by
      rintro h9
      rcases hdata with h | h <;> exact absurd (h.symm.trans h9) (by decide)
    have hcall : ServiceCall.onmessage s.m_wsChannel m.msg m.opcode =
        .onmessage true m.msg m.opcode := by rw [channel]
    obtain ⟨frames, hframes⟩ := channelCalls_quiet (hquiet hdata)
      (s := { s with
        handled := s.handled ++ [m]
        calls := s.calls ++ [.onmessage true m.msg m.opcode] }) hopen
    rw [if_pos hdata, if_pos hdata, if_pos service, if_neg h9, hcall]
    exact ⟨_, (byHandle_service _ _).trans (List.append_nil _).symm, hframes⟩
  · rw [if_neg hdata, if_neg hdata, if_neg hclose]
    by_cases h9 : m.opcode = 0x9
    · rw [if_pos h9, if_pos h9, hping h9, Session.sendFrame, write_open (by exact hopen),
        List.append_nil]
      exact ⟨_, byHandle_handle _ _, rfl⟩
    · rw [if_neg h9, if_neg h9, List.append_nil, List.append_nil]
      exact ⟨_, rfl, rfl⟩

theorem onMessage_closes (service : s.handle.m_wsService = true) {answer : Answer}
    {m : WebSocket.Message} (hkeeps : ¬ Keeps s.handle.m_serviceType answer (.message m)) :
    (s.onMessage answer m).closed = true := by
  rw [Session.onMessage]
  dsimp only
  split_ifs with hdata h8 h9
  · apply channelCalls_closes _ _
    intro hquiet
    refine hkeeps ⟨fun _ => hquiet, ?_, ?_⟩
    · rintro h8
      rcases hdata with h | h <;> exact absurd (h.symm.trans h8) (by decide)
    · rintro h9
      rcases hdata with h | h <;> exact absurd (h.symm.trans h9) (by decide)
  · exact close_closed _
  · cases hcloses : answer.closes with
    | true => exact write_closes _ _ _
    | false =>
        exact absurd ⟨fun h => absurd h hdata, h8, fun _ => hcloses⟩ hkeeps
  · exact absurd ⟨fun h => absurd h hdata, h8, fun h => absurd h h9⟩ hkeeps

theorem InOrder.work (h : InOrder s) {answer : Answer} (hg : SessionGuard s (.work answer))
    (hstep : s.step lib (.work answer) = some t) : InOrder t := by
  obtain ⟨effect, rest, htodo, rfl⟩ := step_work hstep
  have hkeeps : Keeps s.handle.m_serviceType answer effect := by
    apply hg effect
    rw [htodo]
    exact rfl
  cases h.stage with
  | plain http channel calls todo =>
      rw [htodo] at todo
      have hrest : InOrder { s with todo := rest } :=
        ⟨h.defined, h.service, h.listens,
          .plain http channel calls fun e he => todo e (List.mem_cons_of_mem _ he)⟩
      exact hrest.perform_plain http (todo effect List.mem_cons_self) answer
  | upgrading websocket isOpen calls todo =>
      obtain ⟨response, request, hmore⟩ := todo
      obtain ⟨rfl, rfl⟩ := List.cons_eq_cons.mp (htodo.symm.trans hmore)
      have hcloses : answer.closes = false := hkeeps websocket
      rw [perform_sent_upgraded (by exact websocket), hcloses, write_open (by exact isOpen),
        use_open (by exact isOpen)]
      exact ⟨h.defined, h.service, h.listens, .opening websocket isOpen rfl calls ⟨request, rfl⟩⟩
  | opening websocket isOpen channel calls todo =>
      obtain ⟨request, hmore⟩ := todo
      obtain ⟨rfl, rfl⟩ := List.cons_eq_cons.mp (htodo.symm.trans hmore)
      obtain ⟨frames, hframes⟩ := channelCalls_quiet hkeeps
        (s := { s with todo := [] }.called (.onopen s.m_wsChannel)) isOpen
      rw [Session.perform]
      dsimp only
      rw [hframes, use_open (by exact isOpen)]
      refine ⟨h.defined, h.service, h.listens, .talking websocket channel ?_ ?_ fun _ => rfl⟩
      · simp only [Session.called, calls, channel, isOpen]
        exact conversation_opened
      · exact fun _ he => absurd he List.not_mem_nil
  | talking websocket channel calls todo idle =>
      have isOpen : s.closed = false := by
        apply eq_false_of_ne_true
        intro hclosed
        rw [idle hclosed] at htodo
        cases htodo
      rw [htodo] at todo
      obtain ⟨m, rfl⟩ := todo effect List.mem_cons_self
      obtain ⟨written, -, hon⟩ :=
        onMessage_keeps (s := { s with todo := rest }) isOpen h.service channel hkeeps
      rw [Session.perform, hon, use_open (by exact isOpen)]
      refine ⟨h.defined, h.service, h.listens, .talking websocket channel ?_ ?_ ?_⟩
      · rw [isOpen] at calls ⊢
        dsimp only [serviceCalls]
        split_ifs
        · exact calls.message m
        · rw [List.append_nil]
          exact calls
      · exact fun e he => todo e (List.mem_cons_of_mem _ he)
      · exact fun hclosed => absurd (isOpen.symm.trans hclosed) Bool.false_ne_true

theorem InOrder.work_guard (h : InOrder s) {answer : Answer}
    (hstep : s.step lib (.work answer) = some t) (ht : t.misused = false) :
    SessionGuard s (.work answer) := by
  obtain ⟨effect, rest, htodo, rfl⟩ := step_work hstep
  intro e he
  rw [htodo] at he
  obtain rfl : effect = e := Option.some.inj he
  cases h.stage with
  | plain http _ _ todo =>
      rw [htodo] at todo
      have hplain := todo effect List.mem_cons_self
      cases effect with
      | opened _ => exact hplain.elim
      | message _ => exact hplain.elim
      | routed _ _ => trivial
      | invoked _ _ _ => trivial
      | sent _ => exact fun websocket => absurd (http.symm.trans websocket) (by decide)
  | upgrading websocket isOpen _ todo =>
      obtain ⟨response, request, hmore⟩ := todo
      obtain ⟨rfl, rfl⟩ := List.cons_eq_cons.mp (htodo.symm.trans hmore)
      intro _
      apply eq_false_of_ne_true
      intro hcloses
      rw [perform_sent_upgraded (by exact websocket), hcloses] at ht
      have hopen := open_of_use ht
      rw [write_closes] at hopen
      cases hopen
  | opening _ _ _ _ todo =>
      obtain ⟨request, hmore⟩ := todo
      obtain ⟨rfl, rfl⟩ := List.cons_eq_cons.mp (htodo.symm.trans hmore)
      have hopen := open_of_use ht
      by_contra hloud
      rw [channelCalls_closes hloud] at hopen
      cases hopen
  | talking _ _ _ todo _ =>
      rw [htodo] at todo
      obtain ⟨m, rfl⟩ := todo effect List.mem_cons_self
      have hopen := open_of_use ht
      by_contra hcloses
      have hclosed := onMessage_closes (s := { s with todo := rest }) h.service hcloses
      rw [hclosed] at hopen
      cases hopen

end Steps

theorem InOrder.step {lib : Externals σ} (s : Session σ) (a : SessionAction) (t : Session σ)
    (h : InOrder s) (hg : SessionGuard s a) (hstep : s.step lib a = some t) : InOrder t := by
  cases a with
  | recv data => exact h.recv hg hstep
  | work answer => exact h.work hg hstep
  | channel call =>
      obtain ⟨hopen, hidle, -, rfl⟩ := step_channel hstep
      exact h.channelCall hopen hidle call
  | ioClose =>
      obtain ⟨hopen, hidle, rfl⟩ := step_ioClose hstep
      exact h.close hopen hidle

theorem InOrder.guard {lib : Externals σ} (s : Session σ) (a : SessionAction) (t : Session σ)
    (h : InOrder s) (hstep : s.step lib a = some t) (ht : LifeCycle t) : SessionGuard s a := by
  cases a with
  | recv data => exact h.recv_guard hstep ht.defined
  | work answer => exact h.work_guard hstep ht.defined
  | channel call => trivial
  | ioClose => trivial

/-! ## Runs -/

/-- A session keeps to its life cycle exactly as long as nothing closes it from within
`feedRecvData` and no frame takes the decoder out of its buffer. -/
theorem lifeCycle_along_iff (lib : Externals σ) (fresh : Uninitialised) (router : HttpRouter)
    (run : List SessionAction) :
    Along (Session.step lib) LifeCycle (Session.start lib fresh router) run ↔
      Meets (Session.step lib) SessionGuard (Session.start lib fresh router) run :=
  along_iff_meets (fun _ h => h.lifeCycle) InOrder.step InOrder.guard run
    (inOrder_start lib fresh router)

/-- An upgrade request. -/
def upgradeRequest : Bytes :=
  ascii "GET /chat HTTP/1.1\r\nConnection: Upgrade\r\nUpgrade: websocket\r\n\r\n"

/-- The request as `http_parser` reports it. -/
def upgradeDelivery : Delivery where
  method := .get
  url := [ascii "/chat"]
  headers := [⟨[ascii "Connection"], [ascii "Upgrade"]⟩, ⟨[ascii "Upgrade"], [ascii "websocket"]⟩]
  body := .contentLength []

/-- `http_parser` on a segment that begins with the request; it stops behind it. -/
def upgradeParser : Externals Unit where
  httpParserInit := ()
  httpParserExecute := fun _ data =>
    if upgradeRequest.isPrefixOf data then ⟨upgradeDelivery.callbacks, upgradeRequest.length, ()⟩
    else ⟨[], 0, ()⟩
  wsEncodeKey := id

def upgradeStart : Session Unit :=
  .start upgradeParser .zeroed .new

/-- The service lets the connection be, and its writes succeed. -/
def Answer.ok : Answer :=
  ⟨false, []⟩

/-- `onclose` comes without a channel and without `onopen` where the response to the upgrade
request cannot be sent. A CLOSE frame deletes the parser that still has a frame to hand
over. -/
theorem not_lifeCycle_failed_send_or_close_frame :
    ¬ Along (Session.step upgradeParser) LifeCycle upgradeStart
      [.recv upgradeRequest, .work ⟨true, []⟩] ∧
    ¬ Along (Session.step upgradeParser) LifeCycle upgradeStart
      [.recv upgradeRequest, .work .ok, .work .ok,
        .recv [0x88, 0x00, 0x81, 0x01, 0x61], .work .ok] := by
  constructor
  · intro h
    have hdefined := (h.exec rfl).defined
    revert hdefined
    decide
  · intro h
    have hdefined := (h.exec rfl).defined
    revert hdefined
    decide

end LibConn.Http
