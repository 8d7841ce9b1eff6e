import LibConn.Shared.Run
import LibConn.Verification.WebSocketClient.Frames

/-! # The handshake of a client

A client opens on a response with status 101 and an accept header. Its value is not looked at,
so the handshake is valid only as long as the servers answer the key that was sent. -/

namespace LibConn.Http

open LibConn.Run

variable {σ : Type}

/-! ## Requests and answers -/

/-- The value that `ws_encode_key` computes. -/
def expectedAccept (sha1 : Bytes → Bytes) (key : Bytes) : Bytes :=
  base64Encode (sha1 (key ++ ascii "258EAFA5-E914-47DA-95CA-C5AB0DC85B11"))

/-- The request has a random key, and a text with this key was given to `io_write`. -/
def Request.Keyed (written : List Bytes) (request : Request) : Prop :=
  ∃ rand_key : Fin 16 → UInt8,
    request.headers.find secWebsocketKey = some (base64Encode (List.ofFn rand_key)) ∧
      ∃ text ∈ written, secWebsocketKey ++ ascii ": " ++ base64Encode (List.ofFn rand_key) ++
        ascii "\r\n" <:+: text

/-- The response switches protocols, and has the accept value for the key of the request that
was sent in the session. -/
def Answers (sha1 : Bytes → Bytes) (requests : List Request) (session : ℕ) (resp : Told) : Prop :=
  resp.status_code = some 101 ∧
    ∃ request ∈ requests, request.session = session ∧
      ∃ key, request.headers.find secWebsocketKey = some key ∧
        resp.value secWebsocketAccept = some (expectedAccept sha1 key)

/-- `onopen` was called, and `opened` was reached, only for valid answers. -/
structure OpensValidly (sha1 : Bytes → Bytes) (s : WebSocketClient σ) : Prop where
  sent : ∀ request ∈ s.requests, request.Keyed s.written
  answered : ∀ opening ∈ s.openings,
    Answers sha1 s.requests opening.session (told opening.callbacks)
  opened : s.m_wsState = .opened → ∃ opening ∈ s.openings, opening.session = s.session
  called : ∀ n, (n, .onopen) ∈ s.calls → ∃ opening ∈ s.openings, opening.session = n

/-- The parser takes the bytes for a response that switches protocols and names an accept header
somewhere, be it in a piece of another name. What stood in `status_code` counts where no status
is told. -/
def Switches (lib : ClientLib σ) (s : WebSocketClient σ) (data : Bytes) : Prop :=
  let execution := lib.httpParserExecute s.m_httpParser.parser data
  let callbacks := s.callbacks ++ execution.callbacks
  ¬ (execution.nparsed ≠ data.length ∧ lib.httpErrno execution.parser = true) ∧
    Ended callbacks ∧ (statusTold callbacks).getD s.status = 101 ∧
      NamedIn secWebsocketAccept callbacks

/-- Such a response, read as a whole, answers the key of the request. -/
def HandshakeGuard (lib : ClientLib σ) (sha1 : Bytes → Bytes) (s : WebSocketClient σ) :
    ClientAction → Prop
  | .recv data =>
      s.m_wsState = .upgrading → Switches lib s data →
        Answers sha1 s.requests s.session
          (told (s.callbacks ++ (lib.httpParserExecute s.m_httpParser.parser data).callbacks))
  | _ => True

theorem find_requestHeaders (rand_key : Fin 16 → UInt8) (headers : HttpHeaders) :
    (requestHeaders rand_key headers).find secWebsocketKey =
      some (base64Encode (List.ofFn rand_key)) := by
  unfold requestHeaders
  dsimp only
  rw [OrderedMap.find_set_of_ne _ _ (by decide), OrderedMap.find_set_self]

theorem infix_requestText (u : Url) {headers : HttpHeaders} {it : Bytes × Bytes}
    (h : it ∈ headers.entries) :
    it.1 ++ ascii ": " ++ it.2 ++ ascii "\r\n" <:+: requestText u headers := by
  have hline : it.1 ++ ascii ": " ++ it.2 ++ ascii "\r\n" <:+:
      headers.entries.flatMap fun it => it.1 ++ ascii ": " ++ it.2 ++ ascii "\r\n" := by
    obtain ⟨before, behind, hentries⟩ := List.append_of_mem h
    rw [hentries, List.flatMap_append, List.flatMap_cons]
    exact List.infix_append' _ _ _
  exact hline.trans (List.infix_append _ _ _)

theorem Request.Sent.keyed {written : List Bytes} {request : Request}
    (h : request.Sent written) : request.Keyed written := by
  obtain ⟨u, rand_key, headers, hheaders, hwritten⟩ := h
  have hkey := find_requestHeaders rand_key headers
  rw [← hheaders] at hkey
  exact ⟨rand_key, hkey, _, hwritten, infix_requestText u (OrderedMap.mem_of_find hkey)⟩

theorem Request.Keyed.mono {written written' : List Bytes} {request : Request}
    (hsub : written <+: written') (h : request.Keyed written) : request.Keyed written' := by
  obtain ⟨rand_key, hkey, text, htext, hline⟩ := h
  exact ⟨rand_key, hkey, text, hsub.subset htext, hline⟩

theorem Answers.mono {sha1 : Bytes → Bytes} {requests requests' : List Request} {session : ℕ}
    {resp : Told} (hsub : requests <+: requests')
    (h : Answers sha1 requests session resp) : Answers sha1 requests' session resp := by
  obtain ⟨hstatus, request, hrequest, hanswer⟩ := h
  exact ⟨hstatus, request, hsub.subset hrequest, hanswer⟩

/-! ## Steps -/

section Steps

variable {lib : ClientLib σ} {sha1 : Bytes → Bytes} {s t : WebSocketClient σ}

theorem OpensValidly.of_openings (h : OpensValidly sha1 s)
    (opened : t.m_wsState = .opened → s.m_wsState = .opened ∧ t.session = s.session)
    (openings : t.openings = s.openings)
    (called : ∀ n, (n, .onopen) ∈ t.calls → (n, .onopen) ∈ s.calls)
    (written : s.written <+: t.written) (requests : s.requests <+: t.requests)
    (sent : ∀ request ∈ t.requests, request ∈ s.requests ∨ request.Sent t.written) :
    OpensValidly sha1 t := by
  refine ⟨fun request hrequest => ?_, fun opening hopening => ?_, fun hopened => ?_,
    fun n hn => ?_⟩
  · rcases sent request hrequest with hold | hsent
    · exact (h.sent request hold).mono written
    · exact hsent.keyed
  · rw [openings] at hopening
    exact (h.answered opening hopening).mono requests
  · obtain ⟨hopened, hsession⟩ := opened hopened
    rw [openings, hsession]
    exact h.opened hopened
  · rw [openings]
    exact h.called n (called n hn)

theorem OpensValidly.spares (h : OpensValidly sha1 s) (hspares : Spares s t) :
    OpensValidly sha1 t := by
  obtain ⟨n, hcalls⟩ := hspares.calls
  obtain ⟨requests, hrequests, hsent⟩ := hspares.requests
  refine h.of_openings (fun hopened => ⟨hspares.state hopened, hspares.session⟩)
    hspares.openings (fun m hm => ?_) hspares.written ⟨requests, hrequests.symm⟩
    fun request hrequest => ?_
  · rw [hcalls] at hm
    rcases List.mem_append.mp hm with hm | hm
    · exact hm
    · cases (List.mem_replicate.mp hm).2
  · rw [hrequests] at hrequest
    exact (List.mem_append.mp hrequest).imp_right (hsent request)

/-- The loop of the parser opens nothing. -/
theorem OpensValidly.parserLoop (h : OpensValidly sha1 s) : OpensValidly sha1 s.parserLoop := by
  have hsame : ∀ request ∈ s.requests, request ∈ s.requests ∨ request.Sent s.written :=
    fun _ => .inl
  unfold WebSocketClient.parserLoop
  cases WebSocket.turn s.m_wsBuffer with
  | wait => exact h
  | overrun =>
      exact h.of_openings (fun hopened => ⟨hopened, rfl⟩) rfl (fun _ => id) List.prefix_rfl
        List.prefix_rfl hsame
  | frame m unmasked consumed =>
      dsimp only
      split_ifs
      · refine h.of_openings (fun hopened => ⟨hopened, rfl⟩) rfl (fun n hn => ?_) List.prefix_rfl
          List.prefix_rfl hsame
        rcases List.mem_append.mp hn with hn | hn
        · exact hn
        · cases List.mem_singleton.mp hn
      · exact h.of_openings (fun hopened => ⟨hopened, rfl⟩) rfl (fun _ => id) List.prefix_rfl
          List.prefix_rfl hsame

theorem OpensValidly.feedRest (h : OpensValidly sha1 s) (data : Bytes) :
    OpensValidly sha1 (s.feedRest data) := by
  rw [WebSocketClient.feedRest]
  split_ifs
  · exact OpensValidly.parserLoop { h with }
  · exact h

theorem OpensValidly.ret (h : OpensValidly sha1 s) (frame : UserFrame) :
    OpensValidly sha1 (s.ret frame) := by
  cases frame with
  | onopen data =>
      exact OpensValidly.feedRest (s := { s with m_wsOnMessage := true })
        { h with } data
  | onmessage parser rest =>
      unfold WebSocketClient.ret
      dsimp only
      split_ifs
      · exact OpensValidly.parserLoop { h with }
      · exact { h with }
  | onclose after => exact h.spares (.goOn s after)

theorem OpensValidly.open (h : OpensValidly sha1 s) (o : OpenCall) :
    OpensValidly sha1 (s.open lib o).2 := by
  rcases open_spares lib s o with ⟨-, hsame⟩ | ⟨-, s', hnot, hspares, -, hopenings, -, hcalls,
    -, hwritten, hrequests, -⟩
  · rw [hsame]
    exact h
  · refine OpensValidly.spares ?_ hspares
    refine h.of_openings (fun hopened => absurd hopened hnot) hopenings (fun n => ?_)
      (hwritten ▸ List.prefix_rfl) (hrequests ▸ List.prefix_rfl) fun request => ?_
    · rw [hcalls]
      exact id
    · rw [hrequests]
      exact .inl

theorem hears_parsed (hhears : s.Hears) (data : Bytes) : (s.parsed lib data).Hears :=
  Notified.append hhears _

theorem switches_iff (hhears : s.Hears) (data : Bytes) :
    Switches lib s data ↔
      ¬ ((s.m_httpParser.feedRecvData lib.toExternals data).1 ≠ data.length ∧
          lib.httpErrno (s.parsed lib data).m_httpParser.parser = true) ∧
        isComplete (s.parsed lib data).m_httpParser.toHttpParserData = true ∧
          (s.parsed lib data).m_httpParser.resp.status_code = 101 ∧
            (s.parsed lib data).m_httpParser.resp.headers.find secWebsocketAccept ≠ none := by
  have h : (s.parsed lib data).Hears := hears_parsed hhears data
  rw [Notified.complete_iff h, Notified.status_code h, Notified.find_iff h (by decide)]
  rfl

/-- Bytes that arrive open the client exactly when they complete an accepted response, which
must then answer the request. -/
theorem opensValidly_onread_iff (h : OpensValidly sha1 s) (hhears : s.Hears) (data : Bytes) :
    OpensValidly sha1 (s.onread lib data) ↔ HandshakeGuard lib sha1 s (.recv data) := by
  unfold WebSocketClient.onread HandshakeGuard
  dsimp only
  by_cases hupgrading : s.m_wsState = .upgrading
  · rw [if_pos hupgrading, forall_prop_of_true hupgrading, switches_iff hhears]
    have h' : OpensValidly sha1 (s.parsed lib data) := { h with }
    have hcloses := h'.spares (.ioClose _ .nothing)
    split_ifs with hfails hcomplete hstatus haccept
    · exact iff_of_true hcloses fun hno => absurd hfails hno.1
    · exact iff_of_true hcloses fun hno => absurd hno.2.2.1 hstatus
    · exact iff_of_true hcloses fun hno => absurd (Option.isNone_iff_eq_none.mp haccept) hno.2.2.2
    · rw [forall_prop_of_true ⟨hfails, hcomplete, not_not.mp hstatus,
        fun hno => haccept (Option.isNone_iff_eq_none.mpr hno)⟩]
      have hnew : (⟨s.session, (s.parsed lib data).callbacks⟩ : Opening) ∈
          s.openings ++ [⟨s.session, (s.parsed lib data).callbacks⟩] :=
        List.mem_append_right _ List.mem_cons_self
      constructor
      · exact fun hvalid => hvalid.answered _ hnew
      · intro hanswers
        refine ⟨h.sent, fun opening hopening => ?_, fun _ => ⟨_, hnew, rfl⟩, fun n hn => ?_⟩
        · rcases List.mem_append.mp hopening with hold | hnew
          · exact h.answered opening hold
          · rw [List.mem_singleton.mp hnew]
            exact hanswers
        · rcases List.mem_append.mp hn with hold | hcall
          · obtain ⟨opening, hopening, hsession⟩ := h.called n hold
            exact ⟨opening, List.mem_append_left _ hopening, hsession⟩
          · cases List.mem_singleton.mp hcall
            exact ⟨_, hnew, rfl⟩
    · exact iff_of_true h' fun hno => absurd hno.2.1 hcomplete
  · rw [if_neg hupgrading]
    exact iff_of_true (h.feedRest data) fun hno => absurd hno hupgrading

theorem OpensValidly.step {a : ClientAction} (h : OpensValidly sha1 s) (hhears : s.Hears)
    (hstep : s.step lib a = some t) : OpensValidly sha1 t ↔ HandshakeGuard lib sha1 s a := by
  cases (stepped_of_step hstep).2.2 with
  | «open» o => exact iff_of_true (h.open o) trivial
  | send msg opcode mask r now =>
      exact iff_of_true (h.spares (.send s msg opcode mask r now)) trivial
  | close => exact iff_of_true (h.spares (.close s)) trivial
  | @ret frame rest hstack =>
      refine iff_of_true (OpensValidly.ret ?_ frame) trivial
      exact { h with }
  | connectReady w _ _ =>
      refine iff_of_true (OpensValidly.spares ?_ (.ioConnectCb _ w)) trivial
      exact { h with }
  | connectTimeout _ _ => exact iff_of_true (h.spares (.ioClose s .nothing)) trivial
  | recv _ _ => exact opensValidly_onread_iff h hhears _
  | readEnds _ => exact iff_of_true (h.spares (.ioClose s .nothing)) trivial
  | writeReady r now _ _ => exact iff_of_true (h.spares (.ioWriteCb s r now)) trivial

end Steps

/-- What the client has found for a response that it opened on, and what the response has. -/
def accepts {σ : Type} (s : WebSocketClient σ) : Option Bytes × List (Option Bytes) :=
  (s.m_httpParser.resp.headers.find secWebsocketAccept,
    s.openings.map fun opening => (told opening.callbacks).value secWebsocketAccept)

theorem OpensValidly.accepted {sha1 : Bytes → Bytes} {s : WebSocketClient σ} {value : Option Bytes}
    (h : OpensValidly sha1 s) (hvalue : (accepts s).2 = [value]) :
    ∃ key, value = some (expectedAccept sha1 key) := by
  obtain ⟨opening, hopenings, hopening⟩ := List.map_eq_singleton_iff.mp hvalue
  obtain ⟨-, _, -, -, key, -, haccept⟩ :=
    h.answered opening (by rw [hopenings]; exact List.mem_cons_self)
  exact ⟨key, hopening.symm.trans haccept⟩

end LibConn.Http
