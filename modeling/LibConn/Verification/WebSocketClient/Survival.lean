import LibConn.Model.WebSocketClient
import LibConn.Verification.Io.Locks
import LibConn.Verification.Loop.Outcomes
import LibConn.Verification.WebSocketClient.Frames

/-! # Failed opens

The state of a client is `closed` whenever it has no live connection, and `onclose` has been
called once for a connection that is over, as long as each failure leads to `io_close` and
`io_close` gets its mutex. -/

namespace LibConn.Http

open LibConn.Run

variable {σ : Type}

/-- What a client keeps up: no refused `open` has left a socket, `onclose` has been called once
when the connection of the session is over, and without a live connection the next `open` is
accepted. -/
structure Survives (s : WebSocketClient σ) : Prop where
  defined : s.misused = false
  refused : s.leaked = []
  ended : s.lost = true → s.calls.count (s.session, .onclose) = 1
  closed : s.live = false → s.m_wsState = .closed

/-- An `io_close` of a live connection gets the mutex. -/
def Closable (s : WebSocketClient σ) : Prop :=
  s.live = true → s.conn.io.write_mutex = false

/-- The TLS handshake does not fail. -/
def Handshakes (type : IoType) (w : Connecting) : Prop :=
  w.getpeername = true → type = .ssl → w.sslConnect = true

/-- A refused `open` has no socket; in the others `connect` and the TLS handshake do not fail. -/
def OpensWell (o : OpenCall) : Prop :=
  match o.io.bind fun _ => ioType o.u with
  | none => o.socket < 0
  | some type =>
      0 ≤ o.socket ∧ o.connect ≠ .failed ∧ (o.connect = .connected → Handshakes type o.connecting)

/-- `onread` closes the connection: a parse error, another status, or no accept header. -/
def Rejects (lib : ClientLib σ) (s : WebSocketClient σ) (data : Bytes) : Prop :=
  let (nparse, parser) := s.m_httpParser.feedRecvData lib.toExternals data
  (nparse ≠ data.length ∧ lib.httpErrno parser.parser = true) ∨
    (isComplete parser.toHttpParserData = true ∧
      (parser.resp.status_code ≠ 101 ∨ parser.resp.headers.find secWebsocketAccept = none))

/-- The parser can go on with this buffer. -/
def Parses (m_wsBuffer : Bytes) : Prop :=
  WebSocket.turn m_wsBuffer ≠ .overrun

/-- What the library needs to go on behind a callback. -/
def GoesOn (s : WebSocketClient σ) : UserFrame → Prop
  | .onopen data => s.m_wsState = .opened → data ≠ [] → Parses (s.m_wsBuffer ++ data)
  | .onmessage parser rest => s.parser = parser ∧ Parses rest
  | .onclose (.upgrading _) => s.live = true
  | .onclose _ => True

/-- The conditions under which a client survives a step. -/
def ClientGuard (lib : ClientLib σ) (s : WebSocketClient σ) : ClientAction → Prop
  | .open o => s.m_wsState = .closed → (o.io.isSome = true → s.live = false) ∧ OpensWell o
  | .send _ _ _ _ _ => True
  | .close => Closable s
  | .ret => ∀ frame ∈ s.stack.head?, GoesOn s frame
  | .connectReady w => Handshakes s.conn.io.type w ∧ (w.getpeername = false → Closable s)
  | .connectTimeout => Closable s
  | .recv data =>
      if s.m_wsState = .upgrading then Rejects lib s data → Closable s
      else s.m_wsState = .opened → Parses (s.m_wsBuffer ++ data)
  | .readEnds => Closable s
  | .writeReady r _ =>
      s.conn.io.write_mutex = false → bufferIsEmpty s.conn.io.write_buf = false →
        int32 r.ret < 0 → r.again s.conn.io.type = true

/-! ## The io -/

/-- What holds of a client that is not stuck: `onclose` has not been called while the connection
lives, and the io is closed exactly when it is over. The io of a session without callbacks is
never registered. -/
structure Sound (s : WebSocketClient σ) : Prop where
  close_cb : s.m_channel = true → s.conn.io.close_cb = true
  channel : s.lambdas = true → s.m_channel = true
  sessions : ∀ n, (n, .onclose) ∈ s.calls → n ≤ s.session
  quiet : s.lost = false → s.calls.count (s.session, .onclose) = 0
  lives : s.live = true → s.conn.io.closed = false
  ends : s.lost = true → s.lambdas = true ∧ s.conn.io.closed = true
  unused : s.lambdas = false → s.connect = false ∧ s.connect_timer = false ∧
    (s.conn.io.closed = true ∨ s.conn.io.events = 0)

/-- The client survives, and can go on when it is not stuck. -/
structure Fine (s : WebSocketClient σ) : Prop where
  survives : Survives s
  sound : s.stuck = false → Sound s

section Io

variable {s : WebSocketClient σ} {after : After}

theorem Survives.withStack (h : Survives s) (stack : List UserFrame) :
    Survives { s with stack := stack } :=
  { h with }

theorem Sound.withStack (h : Sound s) (stack : List UserFrame) :
    Sound { s with stack := stack } :=
  { h with }

theorem Sound.live_iff (h : Sound s) :
    s.live = true ↔ s.lambdas = true ∧ s.conn.io.closed = false := by
  constructor
  · intro hlive
    have hlambdas : s.lambdas = true := by
      simp only [WebSocketClient.live, Bool.and_eq_true] at hlive
      exact hlive.1
    exact ⟨hlambdas, h.lives hlive⟩
  · rintro ⟨hlambdas, hopen⟩
    have hover : s.lost = false := by
      by_contra hover
      have hclosed := (h.ends ((Bool.not_eq_false _).mp hover)).2
      rw [hopen] at hclosed
      cases hclosed
    simp [WebSocketClient.live, hlambdas, hover]

theorem fine_onClose (hs : Survives s) (h : Sound s) (hlive : s.live = true) {c : Conn}
    (hclosed : c.io.closed = true) (hcb : c.io.close_cb = true) :
    Fine ({ s with conn := c }.onClose after) := by
  have hlambdas := (h.live_iff.mp hlive).1
  have hover : s.lost = false := by
    simp only [WebSocketClient.live, hlambdas, Bool.true_and, Bool.not_eq_true'] at hlive
    exact hlive
  have hcount := h.quiet hover
  rw [WebSocketClient.onClose, if_pos hlambdas]
  refine ⟨⟨hs.defined, hs.refused, fun _ => ?_, fun _ => rfl⟩, fun _ => ?_⟩
  · simp [WebSocketClient.push, WebSocketClient.call, List.count_append, hcount]
  · refine ⟨fun _ => hcb, h.channel, ?_, fun hno => (by cases hno), ?_,
      fun _ => ⟨hlambdas, hclosed⟩, ?_⟩
    · intro n hn
      rcases List.mem_append.mp hn with hold | hnew
      · exact h.sessions n hold
      · cases List.mem_singleton.mp hnew
        exact le_rfl
    · intro hlive'
      simp [WebSocketClient.live, WebSocketClient.push, WebSocketClient.call] at hlive'
    · intro hno
      rw [show s.lambdas = false from hno] at hlambdas
      cases hlambdas

theorem Sound.withConn (h : Sound s) {c : Conn} (hclosed : c.io.closed = s.conn.io.closed)
    (hcb : c.io.close_cb = s.conn.io.close_cb) (hlambdas : s.lambdas = true) :
    Sound { s with conn := c } := by
  refine ⟨fun hm => hcb.trans (h.close_cb hm), h.channel, h.sessions, h.quiet,
    fun hlive => hclosed.trans (h.lives hlive), fun hover => ?_, fun hno => ?_⟩
  · exact ⟨(h.ends hover).1, hclosed.trans (h.ends hover).2⟩
  · rw [show s.lambdas = false from hno] at hlambdas
    cases hlambdas

theorem fine_goOn (hs : Survives s) (h : Sound s)
    (hafter : ∀ n, after = .upgrading n → s.live = true) : Fine (s.goOn after) := by
  cases after with
  | nothing => exact ⟨hs, fun _ => h⟩
  | clientClose =>
      exact ⟨⟨hs.defined, hs.refused, hs.ended, fun _ => rfl⟩,
        fun _ => { h with }⟩
  | upgrading n =>
      have hlive := hafter n rfl
      have hs' : Survives { s with m_wsState := .upgrading } := by
        refine ⟨hs.defined, hs.refused, hs.ended, fun hdead => ?_⟩
        rw [show s.live = false from hdead] at hlive
        cases hlive
      have h' : Sound { s with m_wsState := .upgrading } :=
        { h with }
      unfold WebSocketClient.goOn
      dsimp only
      split_ifs with hsession
      · refine ⟨{ hs' with }, fun _ => ?_⟩
        have hkept := Kept.ioAdd s.conn .handleEvent .read
        exact h'.withConn hkept.closed hkept.close_cb (h.live_iff.mp hlive).1
      · exact ⟨hs', fun _ => h'⟩

/-- A write on a live connection, whatever becomes of it. -/
theorem fine_ioWrite (hs : Survives s) (h : Sound s) (hlive : s.live = true) (data : Bytes)
    (r : WriteResult) (now : ℕ) (after : After) : Fine (s.ioWrite data r now after) := by
  obtain ⟨hlambdas, -⟩ := h.live_iff.mp hlive
  have hcb := h.close_cb (h.channel hlambdas)
  have hs' : Survives { s with written := s.written ++ [data] } :=
    { hs with }
  have h' : Sound { s with written := s.written ++ [data] } :=
    { h with }
  have houtcome : (LibConn.ioWrite s.conn data r now).value ≠ none →
      Outcome s.conn (LibConn.ioWrite s.conn data r now) := ioWrite_outcome
  rcases ran_cases (s := { s with written := s.written ++ [data] }) after hcb houtcome with
    ⟨-, hran⟩ | ⟨hkept, hran⟩ | ⟨hshut, hran⟩
  · rw [WebSocketClient.ioWrite, hran]
    exact ⟨{ hs with }, nofun⟩
  · rw [WebSocketClient.ioWrite, hran]
    refine fine_goOn { hs with }
      (h'.withConn hkept.closed hkept.close_cb hlambdas) fun _ _ => hlive
  · rw [WebSocketClient.ioWrite, hran]
    exact fine_onClose hs' h' hlive hshut.closed (hshut.close_cb.trans hcb)

/-- The io of a refused `open` is closed: nobody is told. -/
theorem fine_onClose_unset (hs : Survives s) (h : Sound s) (hlambdas : s.lambdas = false)
    {c : Conn} (hclosed : c.io.closed = true) (hcb : c.io.close_cb = true)
    (hafter : ∀ n, after ≠ .upgrading n) : Fine ({ s with conn := c }.onClose after) := by
  rw [WebSocketClient.onClose, if_neg (by rw [hlambdas]; exact Bool.false_ne_true)]
  obtain ⟨hconnect, htimer, -⟩ := h.unused hlambdas
  refine fine_goOn { hs with }
    ⟨fun _ => hcb, h.channel, h.sessions, h.quiet, fun hlive => ?_, fun hover => ?_,
      fun _ => ⟨hconnect, htimer, .inl hclosed⟩⟩ fun n hn => absurd hn (hafter n)
  · have hset := (h.live_iff.mp hlive).1
    rw [hlambdas] at hset
    cases hset
  · have hset := (h.ends hover).1
    rw [hlambdas] at hset
    cases hset

/-- An `io_close` behind which nothing upgrades: it needs the mutex of a live connection. -/
theorem fine_ioClose (hs : Survives s) (h : Sound s) (hm : s.m_channel = true) (after : After)
    (hafter : ∀ n, after ≠ .upgrading n) :
    Closable s ∧ Fine (s.ioClose after) ∨ ¬ Closable s ∧ ¬ Survives (s.ioClose after) := by
  have hcb := h.close_cb hm
  cases hmutex : s.conn.io.write_mutex with
  | true =>
      have hheld := ioClose_held hmutex
      have hrun : s.ioClose after = { s with stuck := true, lost := s.lost || s.lambdas } := by
        simp only [WebSocketClient.ioClose, hheld, Option.isNone_none, if_true,
          WebSocketClient.ran]
      rw [hrun]
      cases hlive : s.live with
      | true =>
          right
          refine ⟨fun hclosable => ?_, fun hs' => ?_⟩
          · rw [hclosable hlive] at hmutex
            cases hmutex
          · have hover : s.lost = false := by
              simp only [WebSocketClient.live, Bool.and_eq_true, Bool.not_eq_true'] at hlive
              exact hlive.2
            have hcount := hs'.ended (by simp [(h.live_iff.mp hlive).1])
            rw [show s.calls.count (s.session, ClientCall.onclose) = 0 from h.quiet hover] at hcount
            cases hcount
      | false =>
          left
          have hover : (s.lost || s.lambdas) = s.lost := by
            have hdead := hlive
            simp only [WebSocketClient.live] at hdead
            revert hdead
            cases s.lost <;> cases s.lambdas <;> decide
          rw [hover]
          refine ⟨fun hno => ?_, { hs with },
            fun hno => (by cases hno)⟩
          rw [hlive] at hno
          cases hno
  | false =>
      left
      refine ⟨fun _ => hmutex, ?_⟩
      cases hclosed : s.conn.io.closed with
      | true =>
          rw [ioClose_goOn hclosed hmutex]
          exact fine_goOn hs h fun n hn => absurd hn (hafter n)
      | false =>
          rw [ioClose_ran hmutex]
          rcases ran_cases after hcb (fun _ => ioClose_outcome hmutex) with
            ⟨hnone, -⟩ | ⟨hkept, -⟩ | ⟨hshut, hran⟩
          · rw [(ioClose_closes hmutex).value_eq] at hnone
            cases hnone
          · have hends := hkept.closed
            rw [(ioClose_closes hmutex).closed, hclosed] at hends
            cases hends
          · rw [hran]
            have hcb' := hshut.close_cb.trans hcb
            rcases Bool.eq_false_or_eq_true s.lambdas with hlambdas | hlambdas
            · exact fine_onClose hs h (h.live_iff.mpr ⟨hlambdas, hclosed⟩) hshut.closed hcb'
            · exact fine_onClose_unset hs h hlambdas hshut.closed hcb' hafter

theorem fine_send (hs : Survives s) (h : Sound s) (msg : Bytes) (opcode : UInt8)
    (mask : WebSocket.MaskKey) (r : WriteResult) (now : ℕ) :
    Fine (s.send msg opcode mask r now) := by
  unfold WebSocketClient.send
  split_ifs with hopened
  · exact ⟨hs, fun _ => h⟩
  · cases WebSocket.buildFrame msg opcode mask with
    | none => exact ⟨hs, fun _ => h⟩
    | some data =>
        have hlive : s.live = true := by
          by_contra hdead
          exact hopened (by rw [hs.closed ((Bool.not_eq_true _).mp hdead)]; nofun)
        exact fine_ioWrite hs h hlive data r now .nothing

theorem fine_close (hs : Survives s) (h : Sound s) :
    Closable s ∧ Fine s.close ∨ ¬ Closable s ∧ ¬ Survives s.close := by
  unfold WebSocketClient.close
  split_ifs with hm
  · exact fine_ioClose hs h hm .clientClose clientClose_ne_upgrading
  · refine .inl ⟨fun hlive => absurd (h.channel (h.live_iff.mp hlive).1) hm, ?_⟩
    exact fine_goOn hs h (by simp)

end Io

/-! ## Opening -/

section Opening

variable {lib : ClientLib σ} {s : WebSocketClient σ}

theorem not_survives_over (h : Sound s) (hlive : s.live = true) {t : WebSocketClient σ}
    (hover : t.lost = true) (hcalls : t.calls = s.calls) (hsession : t.session = s.session) :
    ¬ Survives t := by
  intro hs
  have hnot : s.lost = false := by
    simp only [WebSocketClient.live, Bool.and_eq_true, Bool.not_eq_true'] at hlive
    exact hlive.2
  have hcount := hs.ended hover
  rw [hcalls, hsession, h.quiet hnot] at hcount
  cases hcount

theorem fine_onconnect (hs : Survives s) (h : Sound s) (hlive : s.live = true) (w : Connecting) :
    Fine (s.onconnect lib w) := by
  apply fine_ioWrite
  · refine ⟨hs.defined, hs.refused, hs.ended, fun hdead => ?_⟩
    rw [show s.live = false from hdead] at hlive
    cases hlive
  · exact { h with }
  · exact hlive

/-- The io connects, whatever becomes of the request: the TLS handshake must not fail. -/
theorem fine_ioConnectCb (lib : ClientLib σ) (hs : Survives s) (h : Sound s)
    (hlive : s.live = true) (w : Connecting) :
    (Handshakes s.conn.io.type w ∧ (w.getpeername = false → Closable s)) ∧
        Fine (s.ioConnectCb lib w) ∨
      ¬ (Handshakes s.conn.io.type w ∧ (w.getpeername = false → Closable s)) ∧
        ¬ Survives (s.ioConnectCb lib w) := by
  obtain ⟨hlambdas, -⟩ := h.live_iff.mp hlive
  rw [WebSocketClient.ioConnectCb]
  cases hpeer : w.getpeername with
  | false =>
      have hnopeer : Handshakes s.conn.io.type w := by
        intro hyes
        rw [hpeer] at hyes
        cases hyes
      rw [if_pos rfl]
      rcases fine_ioClose hs h (h.channel hlambdas) .nothing nothing_ne_upgrading with
        ⟨hc, hfine⟩ | ⟨hc, hnot⟩
      · exact .inl ⟨⟨hnopeer, fun _ => hc⟩, hfine⟩
      · exact .inr ⟨fun hg => hc (hg.2 rfl), hnot⟩
  | true =>
      have htype : (ioDel s.conn eventWrite).io.type = s.conn.io.type :=
        (congrArg Io.type (@ioDel_rest s.conn eventWrite) :)
      rw [if_neg Bool.false_ne_true.symm]
      dsimp only
      rw [htype]
      split_ifs with hfails
      · refine .inr ⟨fun hg => ?_, not_survives_over h hlive rfl rfl rfl⟩
        have hyes := hg.1 hpeer hfails.1
        rw [hfails.2] at hyes
        cases hyes
      · refine .inl ⟨⟨fun _ hssl => ?_, nofun⟩, ?_⟩
        · by_contra hno
          exact hfails ⟨hssl, (Bool.not_eq_true _).mp hno⟩
        · have hkept := Kept.ioDel s.conn .write
          have h' := h.withConn (c := ioDel s.conn eventWrite) hkept.closed hkept.close_cb hlambdas
          have hs' : Survives { s with conn := ioDel s.conn eventWrite } :=
            { hs with }
          exact fine_onconnect hs' h' hlive w

theorem fine_startConnect (lib : ClientLib σ) (hs : Survives s) (h : Sound s)
    (hlive : s.live = true) (hmutex : s.conn.io.write_mutex = false)
    (r : LoopThread.ConnectResult) (w : Connecting) :
    (r ≠ .failed ∧ (r = .connected → Handshakes s.conn.io.type w)) ∧
        Fine (s.startConnect lib r w) ∨
      ¬ (r ≠ .failed ∧ (r = .connected → Handshakes s.conn.io.type w)) ∧
        ¬ Survives (s.startConnect lib r w) := by
  obtain ⟨hlambdas, -⟩ := h.live_iff.mp hlive
  cases r with
  | failed => exact .inr ⟨fun hg => hg.1 rfl, not_survives_over h hlive rfl rfl rfl⟩
  | connected =>
      rcases fine_ioConnectCb lib hs h hlive w with ⟨hg, hfine⟩ | ⟨hg, hnot⟩
      · exact .inl ⟨⟨nofun, fun _ => hg.1⟩, hfine⟩
      · exact .inr ⟨fun hr => hg ⟨hr.2 rfl, fun _ _ => hmutex⟩, hnot⟩
  | inProgress =>
      have hkept := Kept.ioAdd s.conn .handleEvent .write
      have h' := h.withConn hkept.closed hkept.close_cb hlambdas
      refine .inl ⟨⟨nofun, nofun⟩, { hs with }, fun _ => ?_⟩
      refine ⟨h'.close_cb, h'.channel, h'.sessions, h'.quiet, h'.lives, h'.ends, fun hno => ?_⟩
      rw [show s.lambdas = false from hno] at hlambdas
      cases hlambdas

theorem leak_nil_iff {socket : ℤ} (hs : s.leaked = []) :
    (s.leak socket).leaked = [] ↔ socket < 0 := by
  rw [WebSocketClient.leak, hs]
  split_ifs with hneg <;> simp [hneg]

theorem fine_newChannel (hs : Survives s) (h : Sound s) (hdead : s.live = false)
    (hclosed : s.m_wsState = .closed) (socket : ℤ) (malloced : ℕ → UInt8) :
    Survives (s.newChannel socket malloced) ∧ Sound (s.newChannel socket malloced) := by
  refine ⟨⟨?_, hs.refused, nofun, fun _ => hclosed⟩, fun _ => rfl, nofun, ?_, ?_, nofun, nofun,
    fun _ => ⟨rfl, rfl, .inr rfl⟩⟩
  · simp [WebSocketClient.newChannel, hs.defined, hdead]
  · exact fun n hn => (h.sessions n hn).trans (Nat.le_succ _)
  · intro _
    refine List.count_eq_zero.mpr fun hmem => ?_
    have hle := h.sessions _ hmem
    exact absurd hle (Nat.not_succ_le_self _)

theorem fine_lambdas (hs : Survives s) (h : Sound s)
    (hm : s.m_channel = true) (hopen : s.conn.io.closed = false) (hover : s.lost = false)
    (type : IoType) {t : WebSocketClient σ}
    (ht : t = { s with
      conn := { s.conn with io := { s.conn.io with type := type } }
      lambdas := true
      m_wsState := .connecting }) :
    Survives t ∧ Sound t ∧ t.live = true := by
  subst ht
  refine ⟨⟨hs.defined, hs.refused, hs.ended, ?_⟩,
    ⟨h.close_cb, fun _ => hm, h.sessions, h.quiet, fun _ => hopen, ?_, nofun⟩, ?_⟩
  · intro hdead
    simp [WebSocketClient.live, hover] at hdead
  · intro hends
    rw [show s.lost = true from hends] at hover
    cases hover
  · simp [WebSocketClient.live, hover]

theorem guard_open_iff {o : OpenCall} (hclosed : s.m_wsState = .closed) :
    ClientGuard lib s (.open o) ↔ (o.io.isSome = true → s.live = false) ∧ OpensWell o :=
  forall_prop_of_true hclosed

/-- An `open`, whatever its steps meet. -/
theorem fine_open (hs : Survives s) (h : Sound s) (o : OpenCall) :
    ClientGuard lib s (.open o) ∧ Fine (s.open lib o).2 ∨
      ¬ ClientGuard lib s (.open o) ∧ ¬ Survives (s.open lib o).2 := by
  by_cases hclosed : s.m_wsState = .closed
  swap
  · rw [WebSocketClient.open, if_pos hclosed]
    exact .inl ⟨fun hno => absurd hno hclosed, hs, fun _ => h⟩
  rw [guard_open_iff hclosed]
  unfold WebSocketClient.open
  rw [if_neg (not_not.mpr hclosed)]
  dsimp only
  generalize hu : o.u = u
  have hs₀ : Survives { s with u := u, headers := .empty } :=
    { hs with }
  have h₀ : Sound { s with u := u, headers := .empty } :=
    { h with }
  cases hio : o.io with
  | none =>
      have hwell : OpensWell o ↔ o.socket < 0 := by rw [OpensWell, hio]; rfl
      rw [hwell]
      by_cases hneg : o.socket < 0
      · exact .inl ⟨⟨nofun, hneg⟩, ⟨hs.defined, (leak_nil_iff hs₀.refused).mpr hneg, hs.ended,
          hs.closed⟩, fun _ => { h with }⟩
      · exact .inr ⟨fun hg => hneg hg.2,
          fun hs' => hneg ((leak_nil_iff hs₀.refused).mp hs'.refused)⟩
  | some malloced =>
      dsimp only
      cases hlive : s.live with
      | true =>
          -- the channel of a live connection is deleted
          refine .inr ⟨fun hg => absurd (hg.1 rfl) Bool.false_ne_true.symm, fun hs' => ?_⟩
          have hmisused := hs'.defined
          have hnew : ({ s with u := u, headers := .empty }.newChannel o.socket
              malloced).misused = true := by
            simp [WebSocketClient.newChannel, WebSocketClient.live] at hlive ⊢
            exact .inr hlive
          cases htype : ioType u with
          | none =>
              simp only [htype, WebSocketClient.leak, hnew] at hmisused
              cases hmisused
          | some type =>
              simp only [htype, (Spares.startConnect _ _ _).misused, hnew] at hmisused
              cases hmisused
      | false =>
          obtain ⟨hs₁, h₁⟩ := fine_newChannel hs₀ h₀ hlive hclosed o.socket malloced
          cases htype : ioType u with
          | none =>
              have hwell : OpensWell o ↔ o.socket < 0 := by
                rw [OpensWell, hio, Option.bind_some, hu, htype]
              rw [hwell]
              by_cases hneg : o.socket < 0
              · refine .inl ⟨⟨fun _ => rfl, hneg⟩,
                  ⟨hs₁.defined, (leak_nil_iff hs₁.refused).mpr hneg, hs₁.ended, hs₁.closed⟩,
                  fun _ => { h₁ with }⟩
              · exact .inr ⟨fun hg => hneg hg.2,
                  fun hs' => hneg ((leak_nil_iff hs₁.refused).mp hs'.refused)⟩
          | some type =>
              obtain ⟨hs₂, h₂, hlive₂⟩ := fine_lambdas hs₁ h₁ rfl rfl rfl type rfl
              have hwell : OpensWell o ↔ 0 ≤ o.socket ∧ o.connect ≠ .failed ∧
                  (o.connect = .connected → Handshakes type o.connecting) := by
                rw [OpensWell, hio, Option.bind_some, hu, htype]
              rw [hwell]
              by_cases hneg : o.socket < 0
              · refine .inr ⟨fun hg => absurd hg.2.1 (Int.not_le.mpr hneg), ?_⟩
                rw [if_pos hneg]
                exact not_survives_over h₂ hlive₂ rfl rfl rfl
              · dsimp only
                rw [if_neg hneg]
                rcases fine_startConnect lib hs₂ h₂ hlive₂ rfl o.connect o.connecting with
                  ⟨hg, hfine⟩ | ⟨hg, hnot⟩
                · exact .inl ⟨⟨fun _ => rfl, Int.not_lt.mp hneg, hg⟩, hfine⟩
                · exact .inr ⟨fun hg' => hg hg'.2.2, hnot⟩

end Opening

/-! ## Reading -/

section Reading

variable {lib : ClientLib σ} {s : WebSocketClient σ}

theorem fine_callback (hs : Survives s) (h : Sound s) (session : ℕ) {c : ClientCall}
    (hc : c ≠ .onclose) (frame : UserFrame) : Fine ((s.call session c).push frame) := by
  have hcount : (s.calls ++ [(session, c)]).count (s.session, .onclose) =
      s.calls.count (s.session, .onclose) := by
    simp [List.count_append, hc]
  refine ⟨⟨hs.defined, hs.refused, fun hover => hcount.trans (hs.ended hover), hs.closed⟩,
    fun _ => ⟨h.close_cb, h.channel, fun n hn => ?_, fun hover => hcount.trans (h.quiet hover),
      h.lives, h.ends, h.unused⟩⟩
  rcases List.mem_append.mp hn with hold | hnew
  · exact h.sessions n hold
  · cases List.mem_singleton.mp hnew
    exact absurd rfl hc

/-- The loop of the parser hands over a frame or ends, unless it leaves the buffer. -/
theorem fine_parserLoop (hs : Survives s) (h : Sound s) :
    Parses s.m_wsBuffer ∧ Fine s.parserLoop ∨ ¬ Parses s.m_wsBuffer ∧ ¬ Survives s.parserLoop := by
  unfold WebSocketClient.parserLoop Parses
  cases WebSocket.turn s.m_wsBuffer with
  | wait => exact .inl ⟨nofun, hs, fun _ => h⟩
  | overrun =>
      refine .inr ⟨not_not.mpr rfl, fun hs' => ?_⟩
      cases hs'.defined
  | frame m unmasked consumed =>
      refine .inl ⟨nofun, ?_⟩
      dsimp only
      split_ifs
      · have hs' : Survives (s.handle m) := { hs with }
        have h' : Sound (s.handle m) :=
          { h with }
        exact fine_callback hs' h' s.parser (by simp) _
      · exact ⟨{ hs with }, nofun⟩

theorem fine_feedRest (hs : Survives s) (h : Sound s) (data : Bytes) :
    (s.m_wsState = .opened → data ≠ [] → Parses (s.m_wsBuffer ++ data)) ∧
        Fine (s.feedRest data) ∨
      ¬ (s.m_wsState = .opened → data ≠ [] → Parses (s.m_wsBuffer ++ data)) ∧
        ¬ Survives (s.feedRest data) := by
  rw [WebSocketClient.feedRest]
  split_ifs with hfeeds
  · rw [forall_prop_of_true hfeeds.1, forall_prop_of_true hfeeds.2]
    exact fine_parserLoop (s := { s with m_wsBuffer := s.m_wsBuffer ++ data })
      { hs with }
      { h with }
  · exact .inl ⟨fun hopened hdata => absurd ⟨hopened, hdata⟩ hfeeds, hs, fun _ => h⟩

theorem fine_onread (hs : Survives s) (h : Sound s) (hlive : s.live = true) {data : Bytes}
    (hdata : data ≠ []) :
    ClientGuard lib s (.recv data) ∧ Fine (s.onread lib data) ∨
      ¬ ClientGuard lib s (.recv data) ∧ ¬ Survives (s.onread lib data) := by
  have hm := h.channel (h.live_iff.mp hlive).1
  unfold WebSocketClient.onread ClientGuard
  by_cases hupgrading : s.m_wsState = .upgrading
  · simp only [if_pos hupgrading]
    unfold Rejects
    have hs' : Survives (s.parsed lib data) := { hs with }
    have h' : Sound (s.parsed lib data) := { h with }
    have hparsed : (s.parsed lib data).m_httpParser =
        (s.m_httpParser.feedRecvData lib.toExternals data).2 := rfl
    rw [hparsed]
    generalize s.m_httpParser.feedRecvData lib.toExternals data = fed
    obtain ⟨nparse, parser⟩ := fed
    dsimp only
    have hclose := fine_ioClose hs' h' hm .nothing nothing_ne_upgrading
    split_ifs with hfails hcomplete hstatus haccept
    · rw [forall_prop_of_true (.inl hfails)]
      exact hclose
    · rw [forall_prop_of_true (.inr ⟨hcomplete, .inl hstatus⟩)]
      exact hclose
    · rw [forall_prop_of_true (.inr ⟨hcomplete, .inr (Option.isNone_iff_eq_none.mp haccept)⟩)]
      exact hclose
    · refine .inl ⟨?_, ?_⟩
      · rintro (hno | ⟨-, hno | hno⟩)
        · exact absurd hno hfails
        · exact absurd hno hstatus
        · exact absurd (Option.isNone_iff_eq_none.mpr hno) haccept
      · have hs'' : Survives (s.parsed lib data).opened := by
          refine ⟨hs.defined, hs.refused, hs.ended, fun hdead => ?_⟩
          rw [show s.live = false from hdead] at hlive
          cases hlive
        have h'' : Sound (s.parsed lib data).opened := { h with }
        exact fine_callback hs'' h'' s.session (by simp) _
    · refine .inl ⟨?_, hs', fun _ => h'⟩
      rintro (hno | ⟨hno, -⟩)
      · exact absurd hno hfails
      · exact absurd hno hcomplete
  · simp only [if_neg hupgrading]
    have hparses : (s.m_wsState = .opened → data ≠ [] → Parses (s.m_wsBuffer ++ data)) ↔
        (s.m_wsState = .opened → Parses (s.m_wsBuffer ++ data)) := by
      rw [forall_prop_of_true hdata]
    rw [← hparses]
    exact fine_feedRest hs h data

theorem not_survives_upgrading (hdead : s.live = false) (n : ℕ) :
    ¬ Survives (s.goOn (.upgrading n)) := by
  unfold WebSocketClient.goOn
  dsimp only
  intro hs
  split_ifs at hs
  · cases hs.closed hdead
  · cases hs.closed hdead

theorem fine_ret (hs : Survives s) (h : Sound s) (frame : UserFrame) :
    GoesOn s frame ∧ Fine (s.ret frame) ∨ ¬ GoesOn s frame ∧ ¬ Survives (s.ret frame) := by
  cases frame with
  | onopen data =>
      exact fine_feedRest (s := { s with m_wsOnMessage := true })
        { hs with }
        { h with } data
  | onmessage parser rest =>
      unfold WebSocketClient.ret GoesOn
      dsimp only
      split_ifs with hsame
      · rcases fine_parserLoop (s := { s with m_wsBuffer := rest })
          { hs with }
          { h with } with
          ⟨hparses, hfine⟩ | ⟨hparses, hnot⟩
        · exact .inl ⟨⟨hsame, hparses⟩, hfine⟩
        · exact .inr ⟨fun hg => hparses hg.2, hnot⟩
      · refine .inr ⟨fun hg => hsame hg.1, fun hs' => ?_⟩
        cases hs'.defined
  | onclose after =>
      change GoesOn s (.onclose after) ∧ Fine (s.goOn after) ∨
        ¬ GoesOn s (.onclose after) ∧ ¬ Survives (s.goOn after)
      cases after with
      | nothing => exact .inl ⟨trivial, fine_goOn hs h (by simp)⟩
      | clientClose => exact .inl ⟨trivial, fine_goOn hs h (by simp)⟩
      | upgrading n =>
          by_cases hlive : s.live = true
          · exact .inl ⟨hlive, fine_goOn hs h fun _ _ => hlive⟩
          · exact .inr ⟨hlive, not_survives_upgrading (Bool.eq_false_of_not_eq_true hlive) n⟩

theorem fine_ioWriteCb (hs : Survives s) (h : Sound s) (hlive : s.live = true)
    (r : WriteResult) (now : ℕ) :
    ClientGuard lib s (.writeReady r now) ∧ Fine (s.ioWriteCb r now) ∨
      ¬ ClientGuard lib s (.writeReady r now) ∧ ¬ Survives (s.ioWriteCb r now) := by
  obtain ⟨hlambdas, hopen⟩ := h.live_iff.mp hlive
  have hcb := h.close_cb (h.channel hlambdas)
  unfold WebSocketClient.ioWriteCb ClientGuard
  dsimp only
  cases hmutex : s.conn.io.write_mutex with
  | true =>
      have hheld : LibConn.ioWriteCb s.conn r now = ⟨s.conn, none, []⟩ := by
        rw [LibConn.ioWriteCb, if_neg (by simp [hopen]), if_pos hmutex]
      rw [hheld]
      refine .inl ⟨fun hno => (by cases hno), ?_, fun hno => (by cases hno)⟩
      simp only [Option.isNone_none, if_true, Bool.not_true, Bool.and_false, Bool.or_false]
      exact { hs with }
  | false =>
      have hreleased : (LibConn.ioWriteCb s.conn r now).Released ↔ _ :=
        ioWriteCb_released_iff hmutex
      rw [forall_prop_of_true hopen] at hreleased
      rw [forall_prop_of_true rfl, ← hreleased]
      by_cases hvalue : (LibConn.ioWriteCb s.conn r now).value.isSome = true
      · left
        refine ⟨⟨hvalue, ioWriteCb_free hmutex hvalue⟩, ?_⟩
        rw [if_neg (by simpa using Option.isSome_iff_ne_none.mp hvalue)]
        rcases ran_cases .nothing hcb ioWriteCb_outcome with
          ⟨hnone, -⟩ | ⟨hkept, hran⟩ | ⟨hshut, hran⟩
        · rw [hnone] at hvalue
          cases hvalue
        · rw [hran]
          exact fine_goOn { hs with }
            (h.withConn hkept.closed hkept.close_cb hlambdas) (by simp)
        · rw [hran]
          exact fine_onClose hs h hlive hshut.closed (hshut.close_cb.trans hcb)
      · right
        refine ⟨fun hno => hvalue hno.1, ?_⟩
        have hnone : (LibConn.ioWriteCb s.conn r now).value = none := by simpa using hvalue
        simp only [hnone, Option.isNone_none, if_true, WebSocketClient.ran]
        exact not_survives_over h hlive (by simp [hlambdas]) rfl rfl

end Reading

/-! ## Runs -/

section Runs

variable {lib : ClientLib σ} {s t : WebSocketClient σ} {a : ClientAction}

theorem Sound.live_of_idle (h : Sound s) (hidle : s.idle = true)
    (hused : s.connect = true ∨ s.connect_timer = true ∨ s.conn.io.events ≠ 0) :
    s.live = true ∧ s.m_channel = true := by
  simp only [WebSocketClient.idle, Bool.and_eq_true, Bool.not_eq_true'] at hidle
  obtain ⟨⟨-, hm⟩, hopen⟩ := hidle
  refine ⟨h.live_iff.mpr ⟨?_, hopen⟩, hm⟩
  by_contra hlambdas
  obtain ⟨hconnect, htimer, hio⟩ := h.unused ((Bool.not_eq_true _).mp hlambdas)
  rcases hused with hused | hused | hused
  · rw [hconnect] at hused
    cases hused
  · rw [htimer] at hused
    cases hused
  · rcases hio with hclosed | hevents
    · rw [hopen] at hclosed
      cases hclosed
    · exact hused hevents

theorem Sound.readable (h : Sound s) (hreadable : s.readable = true) :
    s.live = true ∧ s.m_channel = true := by
  simp only [WebSocketClient.readable, Bool.and_eq_true, decide_eq_true_eq] at hreadable
  exact h.live_of_idle hreadable.1.1 (.inr (.inr (events_ne_zero hreadable.2)))

theorem Sound.writable (h : Sound s) (hwritable : s.writable = true) :
    s.live = true ∧ s.m_channel = true := by
  simp only [WebSocketClient.writable, Bool.and_eq_true, decide_eq_true_eq] at hwritable
  exact h.live_of_idle hwritable.1 (.inr (.inr (events_ne_zero hwritable.2)))

theorem guard_ret_iff {frame : UserFrame} {rest : List UserFrame}
    (hstack : s.stack = frame :: rest) :
    ClientGuard lib s .ret ↔ GoesOn { s with stack := rest } frame := by
  simp only [ClientGuard, hstack, List.head?_cons, Option.mem_def, Option.some.injEq,
    forall_eq']
  cases frame <;> rfl

/-- A step that meets its guard leaves the client fine, and the client does not survive any
other. -/
theorem Fine.step (h : Fine s) (hstep : s.step lib a = some t) :
    ClientGuard lib s a ∧ Fine t ∨ ¬ ClientGuard lib s a ∧ ¬ Survives t := by
  obtain ⟨hstuck, -, hstepped⟩ := stepped_of_step hstep
  have hs := h.survives
  have hsound := h.sound hstuck
  cases hstepped with
  | «open» o => exact fine_open hs hsound o
  | send msg opcode mask r now =>
      exact .inl ⟨trivial, fine_send hs hsound msg opcode mask r now⟩
  | close => exact fine_close hs hsound
  | @ret frame rest hstack =>
      rw [guard_ret_iff hstack]
      exact fine_ret (hs.withStack rest) (hsound.withStack rest) frame
  | connectReady w hwritable _ =>
      have hlive := (hsound.writable hwritable).1
      have hlambdas := (hsound.live_iff.mp hlive).1
      refine fine_ioConnectCb (s := { s with connect := false }) lib
        { hs with }
        ⟨hsound.close_cb, hsound.channel, hsound.sessions, hsound.quiet, hsound.lives,
          hsound.ends, fun hno => ?_⟩ hlive w
      rw [show s.lambdas = false from hno] at hlambdas
      cases hlambdas
  | connectTimeout hidle htimer =>
      exact fine_ioClose hs hsound (hsound.live_of_idle hidle (.inr (.inl htimer))).2 .nothing
        nothing_ne_upgrading
  | recv hreadable hdata => exact fine_onread hs hsound (hsound.readable hreadable).1 hdata
  | readEnds hreadable =>
      exact fine_ioClose hs hsound (hsound.readable hreadable).2 .nothing nothing_ne_upgrading
  | writeReady r now hwritable _ =>
      exact fine_ioWriteCb hs hsound (hsound.writable hwritable).1 r now

end Runs

end LibConn.Http
