import LibConn.Model.WebSocketClient
import LibConn.Verification.Http.Calls
import LibConn.Verification.Http.Telling
import LibConn.Verification.Io.Locks
import LibConn.Verification.Loop.Outcomes

/-! # The steps of a client

A step is one of a few calls, each under its own condition. Opening, connecting, sending and
closing never open the client and hand over no frame. -/

namespace LibConn.Http

variable {σ α : Type} {lib : ClientLib σ} {s t u : WebSocketClient σ}

/-! ## Inversion -/

/-- What the steps of a client are. -/
inductive Stepped (lib : ClientLib σ) (s : WebSocketClient σ) :
    ClientAction → WebSocketClient σ → Prop where
  | «open» (o : OpenCall) : Stepped lib s (.open o) (s.open lib o).2
  | send (msg : Bytes) (opcode : UInt8) (mask : WebSocket.MaskKey) (r : WriteResult) (now : ℕ) :
      Stepped lib s (.send msg opcode mask r now) (s.send msg opcode mask r now)
  | close : Stepped lib s .close s.close
  | ret {frame : UserFrame} {rest : List UserFrame} (hstack : s.stack = frame :: rest) :
      Stepped lib s .ret ({ s with stack := rest }.ret frame)
  | connectReady (w : Connecting) (hwritable : s.writable = true) (hconnect : s.connect = true) :
      Stepped lib s (.connectReady w) ({ s with connect := false }.ioConnectCb lib w)
  | connectTimeout (hidle : s.idle = true) (htimer : s.connect_timer = true) :
      Stepped lib s .connectTimeout (s.ioClose .nothing)
  | recv {data : Bytes} (hreadable : s.readable = true) (hdata : data ≠ []) :
      Stepped lib s (.recv data) (s.onread lib data)
  | readEnds (hreadable : s.readable = true) : Stepped lib s .readEnds (s.ioClose .nothing)
  | writeReady (r : WriteResult) (now : ℕ) (hwritable : s.writable = true)
      (hconnect : s.connect = false) : Stepped lib s (.writeReady r now) (s.ioWriteCb r now)

theorem stepped_of_step {a : ClientAction} (h : s.step lib a = some t) :
    s.stuck = false ∧ s.misused = false ∧ Stepped lib s a t := by
  unfold WebSocketClient.step at h
  rw [Option.ite_none_left_eq_some, Bool.or_eq_true, not_or, Bool.not_eq_true,
    Bool.not_eq_true] at h
  obtain ⟨⟨hstuck, hmisused⟩, h⟩ := h
  refine ⟨hstuck, hmisused, ?_⟩
  cases a with
  | «open» o =>
      cases h
      exact .open o
  | send msg opcode mask r now =>
      cases h
      exact .send msg opcode mask r now
  | close =>
      cases h
      exact .close
  | ret =>
      cases hstack : s.stack with
      | nil => simp [hstack] at h
      | cons frame rest =>
          simp only [hstack, Option.some.injEq] at h
          subst h
          exact .ret hstack
  | connectReady w =>
      simp only [Option.ite_none_right_eq_some, Bool.and_eq_true, Option.some.injEq] at h
      obtain ⟨⟨hwritable, hconnect⟩, rfl⟩ := h
      exact .connectReady w hwritable hconnect
  | connectTimeout =>
      simp only [Option.ite_none_right_eq_some, Bool.and_eq_true, Option.some.injEq] at h
      obtain ⟨⟨hidle, htimer⟩, rfl⟩ := h
      exact .connectTimeout hidle htimer
  | recv data =>
      simp only [Option.ite_none_right_eq_some, Bool.and_eq_true, decide_eq_true_eq,
        Option.some.injEq] at h
      obtain ⟨⟨hreadable, hdata⟩, rfl⟩ := h
      exact .recv hreadable hdata
  | readEnds =>
      simp only [Option.ite_none_right_eq_some, Option.some.injEq] at h
      obtain ⟨hreadable, rfl⟩ := h
      exact .readEnds hreadable
  | writeReady r now =>
      simp only [Option.ite_none_right_eq_some, Bool.and_eq_true, Bool.not_eq_true',
        Option.some.injEq] at h
      obtain ⟨⟨hwritable, hconnect⟩, rfl⟩ := h
      exact .writeReady r now hwritable hconnect

/-! ## Frame conditions -/

theorem events_ne_zero {events event : Mask} (h : events &&& event ≠ 0) : events ≠ 0 := by
  rintro rfl
  exact h (BitVec.zero_and)

/-- The frame is a call of `onclose`. -/
def UserFrame.isOnclose : UserFrame → Prop
  | .onclose _ => True
  | _ => False

/-- The headers of the request have a key of 16 bytes, and its text was given to `io_write`. -/
def Request.Sent (written : List Bytes) (request : Request) : Prop :=
  ∃ u rand_key headers, request.headers = requestHeaders rand_key headers ∧
    requestText u request.headers ∈ written

theorem Request.Sent.mono {written written' : List Bytes} {request : Request}
    (hsub : written <+: written') (h : request.Sent written) : request.Sent written' := by
  obtain ⟨u, rand_key, headers, hheaders, hwritten⟩ := h
  exact ⟨u, rand_key, headers, hheaders, hsub.subset hwritten⟩

/-- The parser is the same, with the same buffer. -/
structure SameParser (s t : WebSocketClient σ) : Prop where
  parser : t.parser = s.parser
  onMessage : t.m_wsOnMessage = s.m_wsOnMessage
  buffer : t.m_wsBuffer = s.m_wsBuffer

theorem SameParser.refl (s : WebSocketClient σ) : SameParser s s :=
  ⟨rfl, rfl, rfl⟩

theorem SameParser.trans (h : SameParser s t) (h' : SameParser t u) : SameParser s u :=
  ⟨h'.parser.trans h.parser, h'.onMessage.trans h.onMessage, h'.buffer.trans h.buffer⟩

/-- The members of `m_httpParser` are what its callbacks make of them. -/
def WebSocketClient.Hears (s : WebSocketClient σ) : Prop :=
  Notified s.status s.callbacks s.m_httpParser.toHttpParserData

/-- The client has not become open, nothing was handed over, nothing undefined happened, no
callback but `onclose` was called, each new request was sent, and if the parser is another one
then it is a new one of the session. -/
structure Spares (s t : WebSocketClient σ) : Prop where
  state : t.m_wsState = .opened → s.m_wsState = .opened
  session : t.session = s.session
  misused : t.misused = s.misused
  openings : t.openings = s.openings
  handled : t.handled = s.handled
  calls : ∃ n, t.calls = s.calls ++ List.replicate n (s.session, .onclose)
  stack : ∃ frames, t.stack = frames ++ s.stack ∧ ∀ frame ∈ frames, frame.isOnclose
  written : s.written <+: t.written
  requests : ∃ requests, t.requests = s.requests ++ requests ∧
    ∀ request ∈ requests, request.Sent t.written
  parser : SameParser s t ∨ t.parser = s.session ∧ t.m_wsBuffer = []
  hears : s.Hears → t.Hears

theorem Spares.mk' (state : t.m_wsState = .opened → s.m_wsState = .opened)
    (session : t.session = s.session) (misused : t.misused = s.misused)
    (openings : t.openings = s.openings) (handled : t.handled = s.handled)
    (calls : t.calls = s.calls) (stack : t.stack = s.stack) (written : t.written = s.written)
    (requests : t.requests = s.requests) (parser : SameParser s t)
    (hears : s.Hears → t.Hears) : Spares s t :=
  ⟨state, session, misused, openings, handled, ⟨0, by rw [calls]; simp⟩,
    ⟨[], stack, fun _ hframe => absurd hframe List.not_mem_nil⟩,
    written ▸ List.prefix_rfl,
    ⟨[], by rw [requests, List.append_nil], fun _ hrequest => absurd hrequest List.not_mem_nil⟩,
    .inl parser, hears⟩

theorem Spares.refl (s : WebSocketClient σ) : Spares s s :=
  .mk' id rfl rfl rfl rfl rfl rfl rfl rfl (.refl s) id

theorem Spares.trans (h : Spares s t) (h' : Spares t u) : Spares s u := by
  obtain ⟨m, hm⟩ := h.calls
  obtain ⟨n, hn⟩ := h'.calls
  obtain ⟨frames, hframes, honclose⟩ := h.stack
  obtain ⟨frames', hframes', honclose'⟩ := h'.stack
  obtain ⟨requests, hrequests, hsent⟩ := h.requests
  obtain ⟨requests', hrequests', hsent'⟩ := h'.requests
  refine ⟨h.state ∘ h'.state, h'.session.trans h.session, h'.misused.trans h.misused,
    h'.openings.trans h.openings, h'.handled.trans h.handled, ⟨m + n, ?_⟩,
    ⟨frames' ++ frames, ?_, ?_⟩, h.written.trans h'.written, ⟨requests ++ requests', ?_, ?_⟩, ?_,
    h'.hears ∘ h.hears⟩
  · rw [hn, hm, h.session, List.append_assoc, List.replicate_add]
  · rw [hframes', hframes, List.append_assoc]
  · intro frame hframe
    exact (List.mem_append.mp hframe).elim (honclose' frame) (honclose frame)
  · rw [hrequests', hrequests, List.append_assoc]
  · intro request hrequest
    rcases List.mem_append.mp hrequest with hrequest | hrequest
    · exact (hsent request hrequest).mono h'.written
    · exact hsent' request hrequest
  · rcases h'.parser with hsame | ⟨hparser, hbuffer⟩
    · refine h.parser.imp (·.trans hsame) fun hnew => ?_
      exact ⟨hsame.parser.trans hnew.1, hsame.buffer.trans hnew.2⟩
    · exact .inr ⟨hparser.trans h.session, hbuffer⟩

theorem Spares.calls_prefix (h : Spares s t) : s.calls <+: t.calls := by
  obtain ⟨n, hn⟩ := h.calls
  exact ⟨_, hn.symm⟩

theorem nothing_ne_upgrading (n : ℕ) : After.nothing ≠ .upgrading n := by
  simp

theorem clientClose_ne_upgrading (n : ℕ) : After.clientClose ≠ .upgrading n := by
  simp

theorem Spares.goOn (s : WebSocketClient σ) (after : After) : Spares s (s.goOn after) := by
  cases after with
  | nothing => exact .refl s
  | clientClose => exact .mk' nofun rfl rfl rfl rfl rfl rfl rfl rfl ⟨rfl, rfl, rfl⟩ id
  | upgrading n =>
      unfold WebSocketClient.goOn
      dsimp only
      split_ifs <;> exact .mk' nofun rfl rfl rfl rfl rfl rfl rfl rfl ⟨rfl, rfl, rfl⟩ id

theorem goOn_closed (s : WebSocketClient σ) (after : After) :
    (s.goOn after).conn.io.closed = s.conn.io.closed := by
  cases after with
  | nothing => rfl
  | clientClose => rfl
  | upgrading n =>
      unfold WebSocketClient.goOn
      dsimp only
      split_ifs
      · exact (Kept.ioAdd s.conn .handleEvent .read).closed
      · rfl

theorem goOn_sameParser (s : WebSocketClient σ) (after : After) : SameParser s (s.goOn after) := by
  cases after with
  | nothing => exact .refl s
  | clientClose => exact ⟨rfl, rfl, rfl⟩
  | upgrading n =>
      unfold WebSocketClient.goOn
      dsimp only
      split_ifs <;> exact ⟨rfl, rfl, rfl⟩

theorem Spares.onClose (s : WebSocketClient σ) (after : After) : Spares s (s.onClose after) := by
  rw [WebSocketClient.onClose]
  split_ifs
  · refine ⟨nofun, rfl, rfl, rfl, rfl, ⟨1, rfl⟩, ⟨[.onclose after], rfl, fun frame hframe => ?_⟩,
      List.prefix_rfl, ⟨[], (List.append_nil _).symm, nofun⟩, .inl ⟨rfl, rfl, rfl⟩, id⟩
    rw [List.mem_singleton.mp hframe]
    trivial
  · exact .goOn s after

theorem Spares.ran (s : WebSocketClient σ) (r : Ran α) (after : After) :
    Spares s (s.ran r after) := by
  have hconn : Spares s { s with conn := r.conn } :=
    .mk' id rfl rfl rfl rfl rfl rfl rfl rfl ⟨rfl, rfl, rfl⟩ id
  unfold WebSocketClient.ran
  cases r.value with
  | none => exact .mk' id rfl rfl rfl rfl rfl rfl rfl rfl ⟨rfl, rfl, rfl⟩ id
  | some a =>
      dsimp only
      split_ifs
      · exact hconn.trans (.onClose _ after)
      · exact hconn.trans (.goOn _ after)

theorem Spares.lost (h : Spares s t) (lost : Bool) : Spares s { t with lost := lost } :=
  ⟨h.state, h.session, h.misused, h.openings, h.handled, h.calls, h.stack, h.written, h.requests,
    h.parser.imp (fun hsame => { hsame with }) id, h.hears⟩

theorem Spares.ioClose (s : WebSocketClient σ) (after : After) : Spares s (s.ioClose after) := by
  have hran := Spares.ran s (LibConn.ioClose s.conn) after
  unfold WebSocketClient.ioClose
  dsimp only
  split_ifs
  · exact hran.lost _
  · exact hran

/-- The bytes are given to `io_write`, whatever becomes of them. -/
theorem spares_written (s : WebSocketClient σ) (data : Bytes) :
    Spares s { s with written := s.written ++ [data] } :=
  ⟨id, rfl, rfl, rfl, rfl, ⟨0, (List.append_nil _).symm⟩,
    ⟨[], rfl, fun _ hframe => absurd hframe List.not_mem_nil⟩, List.prefix_append _ _,
    ⟨[], (List.append_nil _).symm, nofun⟩, .inl ⟨rfl, rfl, rfl⟩, id⟩

theorem Spares.ioWrite (s : WebSocketClient σ) (data : Bytes) (r : WriteResult) (now : ℕ)
    (after : After) : Spares s (s.ioWrite data r now after) :=
  (spares_written s data).trans (.ran _ _ after)

theorem mem_written_ioWrite (s : WebSocketClient σ) (data : Bytes) (r : WriteResult) (now : ℕ)
    (after : After) : data ∈ (s.ioWrite data r now after).written :=
  (Spares.ran { s with written := s.written ++ [data] } (LibConn.ioWrite s.conn data r now)
    after).written.subset (List.mem_append_right _ List.mem_cons_self)

theorem Spares.ioWriteCb (s : WebSocketClient σ) (r : WriteResult) (now : ℕ) :
    Spares s (s.ioWriteCb r now) := by
  have hran := Spares.ran s (LibConn.ioWriteCb s.conn r now) .nothing
  unfold WebSocketClient.ioWriteCb
  dsimp only
  split_ifs
  · exact hran.lost _
  · exact hran

theorem Spares.requested {request : Request} (h : Spares t u)
    (hsent : request.Sent u.written) (state : t.m_wsState ≠ .opened)
    (session : t.session = s.session) (misused : t.misused = s.misused)
    (openings : t.openings = s.openings) (handled : t.handled = s.handled)
    (calls : t.calls = s.calls) (stack : t.stack = s.stack) (written : t.written = s.written)
    (requests : t.requests = s.requests ++ [request]) (parser : t.parser = s.session)
    (buffer : t.m_wsBuffer = []) (hears : t.Hears) : Spares s u := by
  obtain ⟨n, hn⟩ := h.calls
  obtain ⟨frames, hframes, honclose⟩ := h.stack
  obtain ⟨more, hmore, hsentMore⟩ := h.requests
  refine ⟨fun hopened => absurd (h.state hopened) state, h.session.trans session,
    h.misused.trans misused, h.openings.trans openings, h.handled.trans handled,
    ⟨n, by rw [hn, calls, session]⟩, ⟨frames, by rw [hframes, stack], honclose⟩,
    written ▸ h.written, ⟨request :: more, by rw [hmore, requests, List.append_assoc]; rfl, ?_⟩,
    .inr ?_, fun _ => h.hears hears⟩
  · intro r hr
    rcases List.mem_cons.mp hr with rfl | hr
    · exact hsent
    · exact hsentMore r hr
  · rcases h.parser with hsame | ⟨hparser, hbuffer⟩
    · exact ⟨hsame.parser.trans parser, hsame.buffer.trans buffer⟩
    · exact ⟨hparser.trans session, hbuffer⟩

theorem hears_new {t : WebSocketClient σ} {fresh : Uninitialised}
    (hparser : t.m_httpParser = .new lib.toExternals fresh .response (.new fresh))
    (hstatus : t.status = fresh.responseStatus) (hcallbacks : t.callbacks = []) : t.Hears := by
  refine ⟨t.m_httpParser.toHttpParserData, ?_⟩
  rw [hparser, hstatus, hcallbacks]
  exact ⟨rfl, nofun, rfl, rfl, rfl, rfl⟩

theorem Spares.onconnect (s : WebSocketClient σ) (w : Connecting) :
    Spares s (s.onconnect lib w) := by
  unfold WebSocketClient.onconnect WebSocketClient.sendHttpRequest
  refine .requested (.ioWrite _ _ _ _ _) ?_ ?_ rfl rfl rfl rfl rfl rfl rfl rfl rfl rfl
    (hears_new rfl rfl rfl)
  · exact ⟨s.u, w.rand_key, s.headers, rfl, mem_written_ioWrite _ _ _ _ _⟩
  · nofun

theorem Spares.ioConnectCb (s : WebSocketClient σ) (w : Connecting) :
    Spares s (s.ioConnectCb lib w) := by
  unfold WebSocketClient.ioConnectCb
  split_ifs
  · exact .ioClose s .nothing
  · dsimp only
    split_ifs
    · exact .mk' id rfl rfl rfl rfl rfl rfl rfl rfl ⟨rfl, rfl, rfl⟩ id
    · refine Spares.trans ?_ (.onconnect _ w)
      exact .mk' id rfl rfl rfl rfl rfl rfl rfl rfl ⟨rfl, rfl, rfl⟩ id

theorem Spares.startConnect (s : WebSocketClient σ) (r : LoopThread.ConnectResult)
    (w : Connecting) : Spares s (s.startConnect lib r w) := by
  cases r with
  | failed => exact .mk' id rfl rfl rfl rfl rfl rfl rfl rfl ⟨rfl, rfl, rfl⟩ id
  | connected => exact .ioConnectCb s w
  | inProgress => exact .mk' id rfl rfl rfl rfl rfl rfl rfl rfl ⟨rfl, rfl, rfl⟩ id

theorem Spares.send (s : WebSocketClient σ) (msg : Bytes) (opcode : UInt8)
    (mask : WebSocket.MaskKey) (r : WriteResult) (now : ℕ) :
    Spares s (s.send msg opcode mask r now) := by
  unfold WebSocketClient.send
  split_ifs
  · exact .refl s
  · cases WebSocket.buildFrame msg opcode mask with
    | none => exact .refl s
    | some data => exact .ioWrite s data r now .nothing

theorem Spares.close (s : WebSocketClient σ) : Spares s s.close := by
  unfold WebSocketClient.close
  split_ifs
  · exact .ioClose s .clientClose
  · exact .goOn s .clientClose

/-- `open` is refused at once, or works on a client that is not open: with the io that it has,
or in a new session. -/
theorem open_spares (lib : ClientLib σ) (s : WebSocketClient σ) (o : OpenCall) :
    s.m_wsState ≠ .closed ∧ (s.open lib o).2 = s ∨
      s.m_wsState = .closed ∧
        ∃ s', s'.m_wsState ≠ .opened ∧ Spares s' (s.open lib o).2 ∧
          s'.misused = (s.misused || (o.io.isSome && s.live)) ∧ s'.openings = s.openings ∧
          s'.handled = s.handled ∧ s'.calls = s.calls ∧ s'.stack = s.stack ∧
          s'.written = s.written ∧ s'.requests = s.requests ∧ (s.Hears → s'.Hears) ∧
          SameParser s s' ∧
          ((s.open lib o).2 = s' ∧ s'.session = s.session ∧ s'.conn = s.conn ∨
            s'.session = s.session + 1) := by
  unfold WebSocketClient.open
  by_cases hclosed : s.m_wsState = .closed
  · right
    have hnot : s.m_wsState ≠ .opened := by
      rw [hclosed]
      nofun
    rw [if_neg (not_not.mpr hclosed)]
    refine ⟨hclosed, ?_⟩
    dsimp only
    cases o.io with
    | none =>
        dsimp only
        refine ⟨_, ?_, .refl _, ?_, rfl, rfl, rfl, rfl, rfl, rfl, id, ⟨rfl, rfl, rfl⟩,
          .inl ⟨rfl, rfl, rfl⟩⟩
        · exact hnot
        · simp [WebSocketClient.leak]
    | some malloced =>
        dsimp only
        cases ioType o.u with
        | none =>
            dsimp only
            refine ⟨_, ?_, .refl _, ?_, rfl, rfl, rfl, rfl, rfl, rfl, id, ⟨rfl, rfl, rfl⟩,
              .inr rfl⟩
            · exact hnot
            · simp [WebSocketClient.leak, WebSocketClient.newChannel, WebSocketClient.live]
        | some type =>
            dsimp only
            refine ⟨_, by nofun, .startConnect _ _ _, ?_, rfl, rfl, rfl, rfl, rfl, rfl,
              id, ⟨rfl, rfl, rfl⟩, .inr rfl⟩
            simp [WebSocketClient.newChannel, WebSocketClient.live]
  · rw [if_pos hclosed]
    exact .inl ⟨hclosed, rfl⟩

/-! ## Calls on the io -/

/-- A call on the io never returns, leaves the io open or closed as it was, or closes it. -/
theorem ran_cases {r : Ran α} (after : After) (hcb : s.conn.io.close_cb = true)
    (houtcome : r.value ≠ none → Outcome s.conn r) :
    (r.value = none ∧ s.ran r after = { s with conn := r.conn, stuck := true }) ∨
      (Kept s.conn r.conn ∧ s.ran r after = { s with conn := r.conn }.goOn after) ∨
      (Shut s.conn r.conn ∧ s.ran r after = { s with conn := r.conn }.onClose after) := by
  unfold WebSocketClient.ran
  cases hvalue : r.value with
  | none => exact .inl ⟨rfl, rfl⟩
  | some a =>
      right
      cases houtcome (by rw [hvalue]; exact (Option.some_ne_none a)) with
      | keeps hkept hcloses =>
          left
          refine ⟨hkept, ?_⟩
          dsimp only
          rw [if_neg]
          rw [List.contains_iff_mem]
          exact List.count_eq_zero.mp hcloses
      | shuts hshut hcloses =>
          right
          refine ⟨hshut, ?_⟩
          dsimp only
          rw [if_pos]
          rw [List.contains_iff_mem]
          apply List.count_pos_iff.mp
          rw [hcloses, Conn.closeCalls, if_pos hcb]
          exact Nat.one_pos

/-- The channel is the same, and its callbacks are. -/
structure SameChannel (s t : WebSocketClient σ) : Prop where
  channel : t.m_channel = s.m_channel
  lambdas : t.lambdas = s.lambdas
  connect : t.connect = s.connect
  close_cb : t.conn.io.close_cb = s.conn.io.close_cb

/-- How a call on the io of a channel ends. -/
inductive Fate (s t : WebSocketClient σ) : Prop where
  | stuck (h : t.stuck = true)
  | keeps (channel : SameChannel s t) (closed : t.conn.io.closed = s.conn.io.closed)
      (state : t.m_wsState = s.m_wsState ∨ s.conn.io.closed = true ∧ t.m_wsState = .closed)
      (calls : t.calls = s.calls) (stack : t.stack = s.stack) (parser : SameParser s t)
  | ends (channel : SameChannel s t) (closed : t.conn.io.closed = true)
      (state : s.lambdas = true → t.m_wsState = .closed)
      (calls : s.lambdas = true → (s.session, .onclose) ∈ t.calls) (parser : SameParser s t)

theorem Fate.refl (s : WebSocketClient σ) : Fate s s :=
  .keeps ⟨rfl, rfl, rfl, rfl⟩ rfl (.inl rfl) rfl rfl (.refl s)

theorem fate_onClose {c : Conn} (after : After) (hafter : ∀ n, after ≠ .upgrading n)
    (hclosed : c.io.closed = true) (hcb : c.io.close_cb = s.conn.io.close_cb) :
    Fate s ({ s with conn := c }.onClose after) := by
  rw [WebSocketClient.onClose]
  split_ifs with hlambdas
  · exact .ends ⟨rfl, rfl, rfl, hcb⟩ hclosed (fun _ => rfl)
      (fun _ => List.mem_append_right _ List.mem_cons_self) ⟨rfl, rfl, rfl⟩
  · have hunset : ∀ {p : Prop}, s.lambdas = true → p := fun hno => absurd hno hlambdas
    cases after with
    | nothing => exact .ends ⟨rfl, rfl, rfl, hcb⟩ hclosed hunset hunset ⟨rfl, rfl, rfl⟩
    | clientClose => exact .ends ⟨rfl, rfl, rfl, hcb⟩ hclosed hunset hunset ⟨rfl, rfl, rfl⟩
    | upgrading n => exact absurd rfl (hafter n)

theorem fate_ran {r : Ran α} (hcb : s.conn.io.close_cb = true)
    (houtcome : r.value ≠ none → Outcome s.conn r) : Fate s (s.ran r .nothing) := by
  rcases ran_cases .nothing hcb houtcome with ⟨-, hran⟩ | ⟨hkept, hran⟩ | ⟨hshut, hran⟩
  · rw [hran]
    exact .stuck rfl
  · rw [hran]
    exact .keeps ⟨rfl, rfl, rfl, hkept.close_cb⟩ hkept.closed (.inl rfl) rfl rfl ⟨rfl, rfl, rfl⟩
  · rw [hran]
    exact fate_onClose .nothing nothing_ne_upgrading hshut.closed hshut.close_cb

theorem ioClose_stuck (hmutex : s.conn.io.write_mutex = true) (after : After) :
    (s.ioClose after).stuck = true := by
  simp only [WebSocketClient.ioClose, ioClose_held hmutex, Option.isNone_none, if_true,
    WebSocketClient.ran]

theorem ioClose_goOn (hclosed : s.conn.io.closed = true) (hmutex : s.conn.io.write_mutex = false)
    (after : After) : s.ioClose after = s.goOn after := by
  rw [WebSocketClient.ioClose, ioClose_closed hclosed hmutex]
  rfl

theorem ioClose_ran (hmutex : s.conn.io.write_mutex = false) (after : After) :
    s.ioClose after = s.ran (LibConn.ioClose s.conn) after := by
  simp only [WebSocketClient.ioClose, (ioClose_closes hmutex).value_eq, Option.isNone_some,
    Bool.false_eq_true, if_false]

theorem fate_ioClose (hcb : s.conn.io.close_cb = true) (after : After)
    (hafter : ∀ n, after ≠ .upgrading n) : Fate s (s.ioClose after) := by
  cases hmutex : s.conn.io.write_mutex with
  | true => exact .stuck (ioClose_stuck hmutex after)
  | false =>
      cases hclosed : s.conn.io.closed with
      | true =>
          rw [ioClose_goOn hclosed hmutex]
          cases after with
          | nothing => exact .refl s
          | clientClose =>
              exact .keeps ⟨rfl, rfl, rfl, rfl⟩ rfl (.inr ⟨hclosed, rfl⟩) rfl rfl ⟨rfl, rfl, rfl⟩
          | upgrading n => exact absurd rfl (hafter n)
      | false =>
          rw [ioClose_ran hmutex]
          have hcloses := ioClose_closes hmutex
          rcases ran_cases after hcb (fun _ => ioClose_outcome hmutex) with
            ⟨hnone, -⟩ | ⟨hkept, -⟩ | ⟨hshut, hran⟩
          · rw [hcloses.value_eq] at hnone
            cases hnone
          · have hends := hkept.closed
            rw [hcloses.closed, hclosed] at hends
            cases hends
          · rw [hran]
            exact fate_onClose after hafter hshut.closed hshut.close_cb

theorem ran_closed (s : WebSocketClient σ) (r : Ran α) (after : After) :
    (s.ran r after).conn.io.closed = r.conn.io.closed := by
  unfold WebSocketClient.ran WebSocketClient.onClose
  cases r.value with
  | none => rfl
  | some a =>
      dsimp only
      split_ifs
      · rfl
      · exact goOn_closed _ after
      · exact goOn_closed _ after

/-- Behind `io_close` the connection is over, unless it never returns. -/
theorem ioClose_over (after : After) (hstuck : (s.ioClose after).stuck = false) :
    (s.ioClose after).conn.io.closed = true := by
  cases hmutex : s.conn.io.write_mutex with
  | true =>
      rw [ioClose_stuck hmutex] at hstuck
      cases hstuck
  | false => rw [ioClose_ran hmutex, ran_closed, (ioClose_closes hmutex).closed]

theorem fate_close (hcb : s.conn.io.close_cb = true) (hm : s.m_channel = true) :
    Fate s s.close := by
  rw [WebSocketClient.close, if_pos hm]
  exact fate_ioClose hcb .clientClose clientClose_ne_upgrading

theorem fate_ioWriteCb (hcb : s.conn.io.close_cb = true) (r : WriteResult) (now : ℕ) :
    Fate s (s.ioWriteCb r now) := by
  unfold WebSocketClient.ioWriteCb
  dsimp only
  split_ifs with hnone
  · refine .stuck ?_
    simp only [Option.isNone_iff_eq_none.mp hnone, WebSocketClient.ran]
  · exact fate_ran hcb ioWriteCb_outcome

theorem fate_send (hcb : s.conn.io.close_cb = true) (msg : Bytes) (opcode : UInt8)
    (mask : WebSocket.MaskKey) (r : WriteResult) (now : ℕ) :
    Fate s (s.send msg opcode mask r now) := by
  unfold WebSocketClient.send
  split_ifs
  · exact .refl s
  · cases WebSocket.buildFrame msg opcode mask with
    | none => exact .refl s
    | some data =>
        have houtcome : (LibConn.ioWrite s.conn data r now).value ≠ none →
          Outcome s.conn (LibConn.ioWrite s.conn data r now) := ioWrite_outcome
        cases fate_ran (s := { s with written := s.written ++ [data] }) hcb houtcome with
        | stuck hstuck => exact .stuck hstuck
        | keeps channel closed state calls stack parser =>
            exact .keeps ⟨channel.channel, channel.lambdas, channel.connect, channel.close_cb⟩
              closed state calls stack ⟨parser.parser, parser.onMessage, parser.buffer⟩
        | ends channel closed state calls parser =>
            exact .ends ⟨channel.channel, channel.lambdas, channel.connect, channel.close_cb⟩ closed
              state calls ⟨parser.parser, parser.onMessage, parser.buffer⟩

/-! ## An example -/

/-- The response to an upgrade request, with the given value of the accept header. -/
def switchingProtocols (accept : Bytes) : Bytes :=
  ascii "HTTP/1.1 101 Switching Protocols\r\nSec-WebSocket-Accept: " ++ accept ++
    ascii "\r\n\r\n"

/-- `http_parser` on what begins with that response; it stops behind it. -/
def switchingParser (accept : Bytes) : ClientLib Unit where
  httpParserInit := ()
  httpParserExecute := fun _ data =>
    if (switchingProtocols accept).isPrefixOf data then
      ⟨[.messageBegin, .status 101, .headerField secWebsocketAccept, .headerValue accept,
        .headersComplete, .messageComplete .get], (switchingProtocols accept).length, ()⟩
    else ⟨[], 0, ()⟩
  wsEncodeKey := id
  httpErrno := fun _ => false

def newClient (accept : Bytes) : WebSocketClient Unit :=
  .new (switchingParser accept) .zeroed
    (loopInit 0 0 (fun _ => Timer.zero) fun _ => none)

/-- The key is made of zeros, and the request is written at once. -/
def plainConnecting : Connecting where
  getpeername := true
  sslConnect := true
  rand_key := fun _ => 0
  fresh := .zeroed
  write := ⟨200, .other, .other⟩
  now := 0

/-- `open` with `connect` ending so. -/
def plainOpen (connect : LoopThread.ConnectResult) : OpenCall where
  url := ascii "ws://127.0.0.1:80/chat"
  malloced := { scheme := [], host := [], port := 0, path := [] }
  socket := 5
  io := some fun _ => 0
  connect := connect
  connecting := plainConnecting
  fits := by decide

end LibConn.Http
