import LibConn.Shared.Run
import LibConn.Verification.WebSocketClient.Frames

/-! # When a client opens

A response is read only in the session whose request was sent last. When it opens the client,
nothing of that session has been handed over, and its parser is new. -/

namespace LibConn.Http

open LibConn.Run

variable {σ α : Type} {lib : ClientLib σ} {s t u : WebSocketClient σ}

/-! ## What upgrades -/

/-- The state has not become `upgrading`, and nothing is on the stack that will make it so. -/
structure NotUpgrading (s t : WebSocketClient σ) : Prop where
  state : t.m_wsState = .upgrading → s.m_wsState = .upgrading
  stack : ∀ n, .onclose (.upgrading n) ∈ t.stack → .onclose (.upgrading n) ∈ s.stack

theorem NotUpgrading.refl (s : WebSocketClient σ) : NotUpgrading s s :=
  ⟨id, fun _ => id⟩

theorem NotUpgrading.goOn (s : WebSocketClient σ) {after : After}
    (hafter : ∀ n, after ≠ .upgrading n) :
    NotUpgrading s (s.goOn after) := by
  cases after with
  | nothing => exact .refl s
  | clientClose => exact ⟨nofun, fun _ => id⟩
  | upgrading n => exact absurd rfl (hafter n)

theorem NotUpgrading.onClose (s : WebSocketClient σ) {after : After}
    (hafter : ∀ n, after ≠ .upgrading n) : NotUpgrading s (s.onClose after) := by
  rw [WebSocketClient.onClose]
  split_ifs
  · refine ⟨fun hstate => (by cases hstate), fun n hn => ?_⟩
    rcases List.mem_cons.mp hn with hnew | hold
    · exact absurd (UserFrame.onclose.inj hnew).symm (hafter n)
    · exact hold
  · exact .goOn s hafter

theorem NotUpgrading.ran (s : WebSocketClient σ) (r : Ran α) (after : After)
    (hafter : ∀ n, after ≠ .upgrading n) : NotUpgrading s (s.ran r after) := by
  have hconn : ∀ {t}, NotUpgrading { s with conn := r.conn } t → NotUpgrading s t :=
    fun h => ⟨h.state, h.stack⟩
  unfold WebSocketClient.ran
  cases r.value with
  | none => exact ⟨id, fun _ => id⟩
  | some a =>
      dsimp only
      split_ifs
      · exact hconn (.onClose _ hafter)
      · exact hconn (.goOn _ hafter)

theorem NotUpgrading.ioClose (s : WebSocketClient σ) {after : After}
    (hafter : ∀ n, after ≠ .upgrading n) : NotUpgrading s (s.ioClose after) := by
  have hran := NotUpgrading.ran s (LibConn.ioClose s.conn) after hafter
  unfold WebSocketClient.ioClose
  dsimp only
  split_ifs
  · exact ⟨hran.state, hran.stack⟩
  · exact hran

theorem NotUpgrading.close (s : WebSocketClient σ) : NotUpgrading s s.close := by
  rw [WebSocketClient.close]
  split_ifs
  · exact .ioClose s clientClose_ne_upgrading
  · exact .goOn s clientClose_ne_upgrading

theorem NotUpgrading.ioWriteCb (s : WebSocketClient σ) (r : WriteResult) (now : ℕ) :
    NotUpgrading s (s.ioWriteCb r now) := by
  have hran := NotUpgrading.ran s (LibConn.ioWriteCb s.conn r now) .nothing nothing_ne_upgrading
  unfold WebSocketClient.ioWriteCb
  dsimp only
  split_ifs
  · exact ⟨hran.state, hran.stack⟩
  · exact hran

theorem NotUpgrading.send (s : WebSocketClient σ) (msg : Bytes) (opcode : UInt8)
    (mask : WebSocket.MaskKey) (r : WriteResult) (now : ℕ) :
    NotUpgrading s (s.send msg opcode mask r now) := by
  unfold WebSocketClient.send
  split_ifs
  · exact .refl s
  · cases WebSocket.buildFrame msg opcode mask with
    | none => exact .refl s
    | some data =>
        have hran := NotUpgrading.ran { s with written := s.written ++ [data] }
          (LibConn.ioWrite s.conn data r now) .nothing nothing_ne_upgrading
        exact ⟨hran.state, hran.stack⟩

/-! ## Sessions in order -/

/-- The client has not been open in this session. -/
def Unopened (s : WebSocketClient σ) : Prop :=
  ∀ opening ∈ s.openings, opening.session < s.session

/-- What has happened belongs to sessions in which the client has been open; the last request
is that of the parser. -/
structure InSessions (s : WebSocketClient σ) : Prop where
  parser_le : s.parser ≤ s.session
  openings : ∀ opening ∈ s.openings, 0 < opening.session ∧ opening.session ≤ s.parser
  opened : s.m_wsState = .opened → ∃ opening ∈ s.openings, opening.session = s.session
  upgrading : s.m_wsState = .upgrading → Unopened s
  upgrades : ∀ n, .onclose (.upgrading n) ∈ s.stack → n ≤ s.parser ∧ Unopened s
  parses : ∀ n rest, .onmessage n rest ∈ s.stack → ∃ opening ∈ s.openings, opening.session = n
  handled : ∀ h ∈ s.handled, ∃ opening ∈ s.openings, opening.session = h.session
  called : ∀ n m, (n, .onmessage m) ∈ s.calls → ∃ opening ∈ s.openings, opening.session = n
  buffer : (∀ opening ∈ s.openings, opening.session < s.parser) → s.m_wsBuffer = []

/-- The io of a session whose request has not been sent is at most registered for writing. -/
def Unread (s : WebSocketClient σ) : Prop :=
  s.parser ≠ s.session → s.conn.io.closed = true ∨ s.conn.io.events = 0 ∨
    s.connect = true ∧ s.conn.io.events = eventWrite

/-- What is known of the channel. -/
structure Channelled (s : WebSocketClient σ) : Prop where
  channel : s.m_channel = true → 0 < s.session
  close_cb : 0 < s.session → s.conn.io.close_cb = true
  requested : s.parser = s.session → 0 < s.session → s.lambdas = true
  connect : s.connect = true → s.parser ≠ s.session ∧ s.lambdas = true
  onclose : ∀ n, (n, .onclose) ∈ s.calls → n ≤ s.session ∧
    (n = s.session → s.conn.io.closed = true)

structure Prepared (s : WebSocketClient σ) : Prop extends InSessions s, Channelled s where
  unread : Unread s

theorem InSessions.next (h : InSessions s) (hspares : Spares s t)
    (upgrading : t.m_wsState = .upgrading → Unopened s)
    (upgrades : ∀ n, .onclose (.upgrading n) ∈ t.stack → n ≤ t.parser ∧ Unopened s) :
    InSessions t := by
  obtain ⟨m, hcalls⟩ := hspares.calls
  obtain ⟨frames, hframes, honclose⟩ := hspares.stack
  have hparser : s.parser ≤ t.parser ∧ t.parser ≤ s.session := by
    rcases hspares.parser with hsame | ⟨hnew, -⟩
    · rw [hsame.parser]
      exact ⟨le_rfl, h.parser_le⟩
    · rw [hnew]
      exact ⟨h.parser_le, le_rfl⟩
  have hunopened : Unopened s → Unopened t := by
    unfold Unopened
    rw [hspares.openings, hspares.session]
    exact id
  refine ⟨hspares.session ▸ hparser.2, fun opening hopening => ?_, fun hopened => ?_,
    fun hup => hunopened (upgrading hup), fun n hn => (upgrades n hn).imp id hunopened,
    fun n rest hn => ?_, ?_, fun n message hn => ?_, fun hnew => ?_⟩
  · rw [hspares.openings] at hopening
    exact (h.openings opening hopening).imp id (·.trans hparser.1)
  · rw [hspares.openings, hspares.session]
    exact h.opened (hspares.state hopened)
  · rw [hspares.openings]
    rw [hframes] at hn
    rcases List.mem_append.mp hn with hframe | hold
    · exact absurd (honclose _ hframe) id
    · exact h.parses n rest hold
  · rw [hspares.openings, hspares.handled]
    exact h.handled
  · rw [hspares.openings]
    rw [hcalls] at hn
    rcases List.mem_append.mp hn with hold | hcall
    · exact h.called n message hold
    · exact nomatch (Prod.mk.inj (List.mem_replicate.mp hcall).2).2
  · rcases hspares.parser with hsame | ⟨-, hbuffer⟩
    · rw [hspares.openings, hsame.parser] at hnew
      exact hsame.buffer.trans (h.buffer hnew)
    · exact hbuffer

theorem InSessions.spares (h : InSessions s) (hspares : Spares s t) (hcalm : NotUpgrading s t) :
    InSessions t := by
  refine h.next hspares (fun hup => h.upgrading (hcalm.state hup)) fun n hn => ?_
  have hold := h.upgrades n (hcalm.stack n hn)
  rcases hspares.parser with hsame | ⟨hnew, -⟩
  · rw [hsame.parser]
    exact hold
  · rw [hnew]
    exact ⟨hold.1.trans h.parser_le, hold.2⟩

theorem Channelled.fate (h : Channelled s) (hspares : Spares s t) (hfate : Fate s t)
    (hstuck : t.stuck = false) : Channelled t := by
  have hle : ∀ n, (n, .onclose) ∈ t.calls → n ≤ s.session := by
    intro n hn
    obtain ⟨m, hcalls⟩ := hspares.calls
    rw [hcalls] at hn
    rcases List.mem_append.mp hn with hold | hcall
    · exact (h.onclose n hold).1
    · exact (Prod.mk.inj (List.mem_replicate.mp hcall).2).1.le
  have hfits : SameChannel s t → SameParser s t →
      (∀ n, (n, .onclose) ∈ t.calls → n = s.session → t.conn.io.closed = true) →
        Channelled t := by
    intro channel parser onclose
    refine ⟨fun hm => ?_, fun hpos => ?_, fun hrequested hpos => ?_, fun hconnect => ?_,
      fun n hn => ?_⟩
    · rw [hspares.session]
      exact h.channel (channel.channel ▸ hm)
    · rw [hspares.session] at hpos
      exact channel.close_cb.trans (h.close_cb hpos)
    · rw [hspares.session] at hrequested hpos
      exact channel.lambdas.trans (h.requested (parser.parser.symm.trans hrequested) hpos)
    · rw [hspares.session, parser.parser, channel.lambdas]
      exact h.connect (channel.connect ▸ hconnect)
    · rw [hspares.session]
      exact ⟨hle n hn, onclose n hn⟩
  cases hfate with
  | stuck hno =>
      rw [hstuck] at hno
      cases hno
  | keeps channel closed _ calls _ parser =>
      refine hfits channel parser fun n hn heq => closed.trans ?_
      exact (h.onclose n (calls ▸ hn)).2 heq
  | ends channel closed _ _ parser => exact hfits channel parser fun _ _ _ => closed

theorem Fate.sameParser (h : Fate s t) (hstuck : t.stuck = false) : SameParser s t := by
  cases h with
  | stuck hno =>
      rw [hstuck] at hno
      cases hno
  | keeps _ _ _ _ _ parser => exact parser
  | ends _ _ _ _ parser => exact parser

/-! ## Calls on the io -/

theorem prepared_ioClose (hsessions : InSessions s) (hchannel : Channelled s)
    (hpos : 0 < s.session) (after : After) (hafter : ∀ n, after ≠ .upgrading n)
    (hstuck : (s.ioClose after).stuck = false) : Prepared (s.ioClose after) :=
  ⟨hsessions.spares (.ioClose s after) (.ioClose s hafter),
    hchannel.fate (.ioClose s after) (fate_ioClose (hchannel.close_cb hpos) after hafter) hstuck,
    fun _ => .inl (ioClose_over after hstuck)⟩

theorem Prepared.fate (h : Prepared s) (hparser : s.parser = s.session) (hspares : Spares s t)
    (hcalm : NotUpgrading s t) (hfate : Fate s t) (hstuck : t.stuck = false) : Prepared t := by
  refine ⟨h.toInSessions.spares hspares hcalm, h.toChannelled.fate hspares hfate hstuck,
    fun hno => absurd ?_ hno⟩
  rw [(hfate.sameParser hstuck).parser, hspares.session]
  exact hparser

theorem Prepared.goOn (h : Prepared s) {after : After}
    (hafter : ∀ n, after = .upgrading n → n ≤ s.parser ∧ Unopened s) : Prepared (s.goOn after) := by
  cases after with
  | nothing => exact h
  | clientClose =>
      exact ⟨h.toInSessions.spares (.goOn s .clientClose) (.goOn s clientClose_ne_upgrading),
        { h with }, h.unread⟩
  | upgrading n =>
      obtain ⟨hn, hunopened⟩ := hafter n rfl
      have hsessions : InSessions (s.goOn (.upgrading n)) := by
        refine h.toInSessions.next (.goOn s _) (fun _ => hunopened) fun m hm => ?_
        rw [(goOn_sameParser s (.upgrading n)).parser]
        refine h.upgrades m ?_
        revert hm
        unfold WebSocketClient.goOn
        dsimp only
        split_ifs <;> exact id
      suffices hrest : Channelled (s.goOn (.upgrading n)) ∧ Unread (s.goOn (.upgrading n)) from
        ⟨hsessions, hrest.1, hrest.2⟩
      unfold WebSocketClient.goOn
      dsimp only
      split_ifs with hsession
      · have hkept := Kept.ioAdd s.conn .handleEvent .read
        refine ⟨⟨h.channel, fun hpos => hkept.close_cb.trans (h.close_cb hpos), h.requested,
          h.connect, fun m hm => ?_⟩, fun hno => absurd ?_ hno⟩
        · exact (h.onclose m hm).imp id fun hclosed heq => hkept.closed.trans (hclosed heq)
        · exact le_antisymm h.parser_le (hsession ▸ hn)
      · exact ⟨{ h with }, h.unread⟩

/-- The first write of a session, which sends the request. -/
theorem prepared_request (h : Prepared s) (hparser : s.parser = s.session)
    (hunopened : Unopened s) (hpos : 0 < s.session) (data : Bytes) (r : WriteResult) (now : ℕ)
    (hstuck : (s.ioWrite data r now (.upgrading s.session)).stuck = false) :
    Prepared (s.ioWrite data r now (.upgrading s.session)) := by
  have hfits : ∀ c : Conn, c.io.closed = s.conn.io.closed ∨ c.io.closed = true →
      c.io.close_cb = s.conn.io.close_cb →
        Prepared { s with written := s.written ++ [data], conn := c } := by
    intro c hclosed hcb
    refine ⟨{ h with }, ⟨h.channel, fun hpos => hcb.trans (h.close_cb hpos), h.requested,
      h.connect, fun n hn => ?_⟩, fun hno => absurd hparser hno⟩
    exact (h.onclose n hn).imp id fun hold heq => hclosed.elim (·.trans (hold heq)) id
  have houtcome : (LibConn.ioWrite s.conn data r now).value ≠ none →
      Outcome s.conn (LibConn.ioWrite s.conn data r now) := ioWrite_outcome
  unfold WebSocketClient.ioWrite at hstuck ⊢
  rcases ran_cases (s := { s with written := s.written ++ [data] }) (.upgrading s.session)
    (h.close_cb hpos) houtcome with ⟨-, hran⟩ | ⟨hkept, hran⟩ | ⟨hshut, hran⟩
  · rw [hran] at hstuck
    cases hstuck
  · rw [hran]
    refine (hfits _ (.inl hkept.closed) hkept.close_cb).goOn fun n hn => ?_
    rw [← After.upgrading.inj hn]
    exact ⟨hparser.ge, hunopened⟩
  · rw [hran, WebSocketClient.onClose, if_pos (h.requested hparser hpos)]
    have hends := hfits _ (.inr hshut.closed) hshut.close_cb
    refine ⟨⟨h.parser_le, h.openings, fun hno => (by cases hno), fun hno => (by cases hno),
      fun n hn => ?_, fun n rest hn => ?_, h.handled, fun n m hn => ?_, h.buffer⟩,
      ⟨h.channel, hends.close_cb, h.requested, h.connect,
      fun n hn => ⟨?_, fun _ => hshut.closed⟩⟩, fun hno => absurd hparser hno⟩
    · rcases List.mem_cons.mp hn with hnew | hold
      · rw [After.upgrading.inj (UserFrame.onclose.inj hnew)]
        exact ⟨hparser.ge, hunopened⟩
      · exact h.upgrades n hold
    · rcases List.mem_cons.mp hn with hnew | hold
      · cases hnew
      · exact h.parses n rest hold
    · rcases List.mem_append.mp hn with hold | hnew
      · exact h.called n m hold
      · cases (Prod.mk.inj (List.mem_singleton.mp hnew)).2
    · rcases List.mem_append.mp hn with hold | hnew
      · exact (h.onclose n hold).1
      · exact (Prod.mk.inj (List.mem_singleton.mp hnew)).1.le

/-! ## Opening -/

/-- A session that has just begun to connect. -/
structure Begins (s : WebSocketClient σ) : Prop extends InSessions s, Channelled s where
  parser_lt : s.parser < s.session
  lambdas : s.lambdas = true
  connecting : s.connect = false
  events : s.conn.io.closed = true ∨ s.conn.io.events = 0 ∨ s.conn.io.events = eventWrite

theorem Begins.unopened (h : Begins s) : Unopened s :=
  fun opening hopening => (h.openings opening hopening).2.trans_lt h.parser_lt

theorem prepared_onconnect (h : Begins s) (w : Connecting)
    (hstuck : (s.onconnect lib w).stuck = false) : Prepared (s.onconnect lib w) := by
  unfold WebSocketClient.onconnect WebSocketClient.sendHttpRequest at hstuck ⊢
  dsimp only at hstuck ⊢
  refine prepared_request ?_ ?_ ?_ ?_ _ _ _ hstuck
  rotate_left
  · rfl
  · exact h.unopened
  · exact h.parser_lt.bot_lt
  refine ⟨⟨le_rfl, fun opening hopening => ?_, nofun, nofun, fun n hn => ?_, h.parses, h.handled,
    h.called, fun _ => rfl⟩, ⟨h.channel, h.close_cb, fun _ _ => h.lambdas, fun hno => ?_,
    h.onclose⟩, fun hno => absurd rfl hno⟩
  · exact (h.openings opening hopening).imp id (·.trans h.parser_le)
  · exact (h.upgrades n hn).imp (·.trans h.parser_le) id
  · have hconnecting := h.connecting
    rw [show s.connect = true from hno] at hconnecting
    cases hconnecting

theorem prepared_ioConnectCb (h : Begins s) (w : Connecting)
    (hstuck : (s.ioConnectCb lib w).stuck = false) : Prepared (s.ioConnectCb lib w) := by
  have hpos : 0 < s.session := h.parser_lt.bot_lt
  unfold WebSocketClient.ioConnectCb at hstuck ⊢
  split_ifs at hstuck ⊢ with hpeer
  · exact prepared_ioClose h.toInSessions h.toChannelled hpos .nothing nothing_ne_upgrading hstuck
  · dsimp only at hstuck ⊢
    have hkept := Kept.ioDel s.conn .write
    have hevents : s.conn.io.closed = true ∨ (ioDel s.conn eventWrite).io.events = 0 := by
      refine h.events.imp id ?_
      rw [ioDel_events]
      rintro (hevents | hevents) <;> rw [hevents] <;> decide
    have hbegins : Begins { s with conn := ioDel s.conn eventWrite } := by
      refine ⟨{ h with }, ⟨h.channel, fun hpos => hkept.close_cb.trans (h.close_cb hpos),
        h.requested, h.connect, fun n hn => ?_⟩, h.parser_lt, h.lambdas, h.connecting, ?_⟩
      · exact (h.onclose n hn).imp id fun hold heq => hkept.closed.trans (hold heq)
      · exact hevents.imp hkept.closed.trans .inl
    split_ifs at hstuck ⊢ with hfails
    · exact ⟨{ h with }, ⟨h.channel, hbegins.close_cb, h.requested, h.connect,
        hbegins.onclose⟩, fun _ => hevents.imp hkept.closed.trans .inl⟩
    · exact prepared_onconnect hbegins w hstuck

theorem Prepared.newChannel (h : Prepared s) (hclosed : s.m_wsState = .closed) (socket : ℤ)
    (malloced : ℕ → UInt8) : Prepared (s.newChannel socket malloced) := by
  have hlt : s.parser < s.session + 1 := Nat.lt_succ_of_le h.parser_le
  refine ⟨⟨hlt.le, h.openings, fun hno => ?_, fun hno => ?_, fun n hn => ?_, h.parses, h.handled,
    h.called, h.buffer⟩, ⟨fun _ => Nat.succ_pos _, fun _ => rfl, fun hno => absurd hno hlt.ne,
    nofun, fun n hn => ?_⟩, fun _ => .inr (.inl rfl)⟩
  · rw [show s.m_wsState = .opened from hno] at hclosed
    cases hclosed
  · rw [show s.m_wsState = .upgrading from hno] at hclosed
    cases hclosed
  · refine ⟨(h.upgrades n hn).1, fun opening hopening => ?_⟩
    exact (h.openings opening hopening).2.trans_lt hlt
  · have hle := (h.onclose n hn).1
    exact ⟨hle.trans (Nat.le_succ _), fun heq => absurd hle (heq ▸ Nat.not_succ_le_self _)⟩

theorem Prepared.begins (h : Prepared s) (hlt : s.parser < s.session) (hconnect : s.connect = false)
    (hevents : s.conn.io.events = 0) (type : IoType) :
    Begins { s with
      conn := { s.conn with io := { s.conn.io with type := type } }
      lambdas := true
      m_wsState := .connecting } := by
  refine ⟨⟨h.parser_le, h.openings, nofun, nofun, h.upgrades, h.parses, h.handled, h.called,
    h.buffer⟩, ⟨h.channel, h.close_cb, fun _ _ => rfl, fun hno => ?_, h.onclose⟩, hlt, rfl,
    hconnect, .inr (.inl hevents)⟩
  rw [show s.connect = true from hno] at hconnect
  cases hconnect

theorem prepared_startConnect (h : Begins s) (hevents : s.conn.io.events = 0)
    (r : LoopThread.ConnectResult) (w : Connecting)
    (hstuck : (s.startConnect lib r w).stuck = false) : Prepared (s.startConnect lib r w) := by
  cases r with
  | failed =>
      exact ⟨{ h with }, { h with },
        fun _ => .inr (.inl hevents)⟩
  | connected => exact prepared_ioConnectCb h w hstuck
  | inProgress =>
      have hkept := Kept.ioAdd s.conn .handleEvent .write
      refine ⟨{ h with }, ⟨h.channel, fun hpos => hkept.close_cb.trans (h.close_cb hpos),
        h.requested, fun _ => ⟨h.parser_lt.ne, h.lambdas⟩, fun n hn => ?_⟩,
        fun _ => .inr (.inr ⟨rfl, ?_⟩)⟩
      · exact (h.onclose n hn).imp id fun hold heq => hkept.closed.trans (hold heq)
      · have hadd : (ioAdd s.conn .handleEvent eventWrite).io.events = eventWrite := by
          rw [ioAdd, hevents]
          rfl
        exact hadd

theorem prepared_open (h : Prepared s) (o : OpenCall)
    (hstuck : (s.open lib o).2.stuck = false) : Prepared (s.open lib o).2 := by
  revert hstuck
  unfold WebSocketClient.open
  by_cases hclosed : s.m_wsState = .closed
  · rw [if_neg (not_not.mpr hclosed)]
    dsimp only
    generalize o.u = u
    have h₀ : Prepared { s with u := u, headers := .empty } :=
      { h with }
    cases o.io with
    | none =>
        exact fun _ => { h with }
    | some malloced =>
        have hnew := h₀.newChannel hclosed o.socket malloced
        dsimp only
        cases ioType u with
        | none =>
            exact fun _ => { hnew with }
        | some type =>
            have hlt : s.parser < s.session + 1 := Nat.lt_succ_of_le h.parser_le
            exact prepared_startConnect (hnew.begins hlt rfl rfl type) rfl _ _
  · rw [if_pos hclosed]
    exact fun _ => h

/-! ## Reading -/

/-- A client that is open reads with the parser of its session. -/
theorem Prepared.parser_eq (h : Prepared s) (hopened : s.m_wsState = .opened) :
    s.parser = s.session := by
  obtain ⟨opening, hopening, hsession⟩ := h.opened hopened
  exact le_antisymm h.parser_le (hsession ▸ (h.openings opening hopening).2)

theorem prepared_parserLoop (h : Prepared s)
    (hopening : ∃ opening ∈ s.openings, opening.session = s.parser) : Prepared s.parserLoop := by
  unfold WebSocketClient.parserLoop
  cases WebSocket.turn s.m_wsBuffer with
  | wait => exact h
  | overrun =>
      exact { h with }
  | frame m unmasked consumed =>
      dsimp only
      split_ifs
      · refine ⟨⟨h.parser_le, h.openings, h.opened, h.upgrading, fun n hn => ?_,
          fun n rest hn => ?_, fun handled hhandled => ?_, fun n m hn => ?_, h.buffer⟩,
          ⟨h.channel, h.close_cb, h.requested, h.connect, fun n hn => ?_⟩, h.unread⟩
        · rcases List.mem_cons.mp hn with hnew | hold
          · cases hnew
          · exact h.upgrades n hold
        · rcases List.mem_cons.mp hn with hnew | hold
          · rw [(UserFrame.onmessage.inj hnew).1]
            exact hopening
          · exact h.parses n rest hold
        · rcases List.mem_append.mp hhandled with hold | hnew
          · exact h.handled handled hold
          · rw [List.mem_singleton.mp hnew]
            exact hopening
        · rcases List.mem_append.mp hn with hold | hnew
          · exact h.called n m hold
          · rw [(Prod.mk.inj (List.mem_singleton.mp hnew)).1]
            exact hopening
        · rcases List.mem_append.mp hn with hold | hnew
          · exact h.onclose n hold
          · exact nomatch (Prod.mk.inj (List.mem_singleton.mp hnew)).2
      · exact { h with }

/-- The buffer of a parser that has been read with. -/
theorem Prepared.withBuffer (h : Prepared s)
    (hopening : ∃ opening ∈ s.openings, opening.session = s.parser) (buffer : Bytes) :
    Prepared { s with m_wsBuffer := buffer } := by
  obtain ⟨opening, hmem, hsession⟩ := hopening
  refine ⟨⟨h.parser_le, h.openings, h.opened, h.upgrading, h.upgrades, h.parses, h.handled,
    h.called, fun hnone => ?_⟩, { h with },
    h.unread⟩
  exact absurd hsession (hnone opening hmem).ne

theorem prepared_feedRest (h : Prepared s) (data : Bytes) : Prepared (s.feedRest data) := by
  rw [WebSocketClient.feedRest]
  split_ifs with hfeeds
  · have hopening : ∃ opening ∈ s.openings, opening.session = s.parser := by
      rw [h.parser_eq hfeeds.1]
      exact h.opened hfeeds.1
    exact prepared_parserLoop (h.withBuffer hopening _) hopening
  · exact h

theorem prepared_ret (h : Prepared s) {frame : UserFrame} {rest : List UserFrame}
    (hstack : s.stack = frame :: rest) : Prepared ({ s with stack := rest }.ret frame) := by
  have hmem : ∀ frame ∈ rest, frame ∈ s.stack := by
    intro frame hframe
    rw [hstack]
    exact List.mem_cons_of_mem _ hframe
  have htop : frame ∈ s.stack := by
    rw [hstack]
    exact List.mem_cons_self
  have hrest : Prepared { s with stack := rest } :=
    ⟨⟨h.parser_le, h.openings, h.opened, h.upgrading, fun n hn => h.upgrades n (hmem _ hn),
      fun n bytes hn => h.parses n bytes (hmem _ hn), h.handled, h.called, h.buffer⟩,
      { h with }, h.unread⟩
  cases frame with
  | onopen data =>
      have hset : Prepared { s with stack := rest, m_wsOnMessage := true } :=
        { hrest with }
      exact prepared_feedRest hset data
  | onmessage parser bytes =>
      unfold WebSocketClient.ret
      dsimp only
      split_ifs with hparser
      · have hopening : ∃ opening ∈ s.openings, opening.session = s.parser := by
          rw [hparser]
          exact h.parses parser bytes htop
        exact prepared_parserLoop (hrest.withBuffer hopening bytes) hopening
      · exact { hrest with }
  | onclose after =>
      refine hrest.goOn fun n hn => ?_
      rw [hn] at htop
      exact h.upgrades n htop

/-- Only the session whose request was sent last can be read. -/
theorem Prepared.readable (h : Prepared s) (hreadable : s.readable = true) :
    s.parser = s.session ∧ 0 < s.session := by
  simp only [WebSocketClient.readable, WebSocketClient.idle, Bool.and_eq_true,
    Bool.not_eq_true', decide_eq_true_eq] at hreadable
  obtain ⟨⟨⟨⟨-, hm⟩, hopen⟩, -⟩, hevents⟩ := hreadable
  refine ⟨?_, h.channel hm⟩
  by_contra hno
  rcases h.unread hno with hclosed | h0 | ⟨-, hwrite⟩
  · rw [hopen] at hclosed
    cases hclosed
  · exact events_ne_zero hevents h0
  · exact hevents (by rw [hwrite]; rfl)

theorem prepared_opened (h : Prepared s) (hparser : s.parser = s.session) (hpos : 0 < s.session)
    (hstack : s.stack = []) (rest : Bytes) :
    Prepared ((s.opened.call s.session .onopen).push (.onopen rest)) := by
  have hold : ∀ {n : ℕ}, (∃ opening ∈ s.openings, opening.session = n) →
      ∃ opening ∈ s.openings ++ [⟨s.session, s.callbacks⟩], opening.session = n :=
    fun ⟨opening, hopening, hsession⟩ => ⟨opening, List.mem_append_left _ hopening, hsession⟩
  have hnew : (⟨s.session, s.callbacks⟩ : Opening) ∈ s.openings ++ [⟨s.session, s.callbacks⟩] :=
    List.mem_append_right _ List.mem_cons_self
  refine ⟨⟨h.parser_le, fun opening hopening => ?_, fun _ => ⟨_, hnew, rfl⟩, nofun,
    fun n hn => ?_, fun n bytes hn => ?_, fun handled hhandled => hold (h.handled handled hhandled),
    fun n m hn => ?_, fun hnone => ?_⟩, ⟨h.channel, h.close_cb, h.requested, h.connect,
    fun n hn => ?_⟩, h.unread⟩
  · rcases List.mem_append.mp hopening with hmem | hmem
    · exact h.openings opening hmem
    · rw [List.mem_singleton.mp hmem]
      exact ⟨hpos, hparser.ge⟩
  · rcases List.mem_cons.mp hn with hframe | hframe
    · cases hframe
    · rw [show (s.opened.call s.session .onopen).stack = [] from hstack] at hframe
      cases hframe
  · rcases List.mem_cons.mp hn with hframe | hframe
    · cases hframe
    · rw [show (s.opened.call s.session .onopen).stack = [] from hstack] at hframe
      cases hframe
  · rcases List.mem_append.mp hn with hmem | hmem
    · exact hold (h.called n m hmem)
    · exact nomatch (Prod.mk.inj (List.mem_singleton.mp hmem)).2
  · exact absurd (hnone _ hnew) (Nat.not_lt.mpr hparser.le)
  · rcases List.mem_append.mp hn with hmem | hmem
    · exact h.onclose n hmem
    · exact nomatch (Prod.mk.inj (List.mem_singleton.mp hmem)).2

theorem prepared_onread (h : Prepared s) (hreadable : s.readable = true) (data : Bytes)
    (hstuck : (s.onread lib data).stuck = false) : Prepared (s.onread lib data) := by
  obtain ⟨hparser, hpos⟩ := h.readable hreadable
  have hstack : s.stack = [] := by
    simp only [WebSocketClient.readable, WebSocketClient.idle, Bool.and_eq_true,
      List.isEmpty_iff] at hreadable
    exact hreadable.1.1.1.1
  unfold WebSocketClient.onread at hstuck ⊢
  split_ifs at hstuck ⊢ with hupgrading
  · dsimp only at hstuck ⊢
    have h' : Prepared (s.parsed lib data) := { h with }
    have hclose :=
      prepared_ioClose h'.toInSessions h'.toChannelled hpos .nothing nothing_ne_upgrading
    split_ifs at hstuck ⊢
    · exact hclose hstuck
    · exact hclose hstuck
    · exact hclose hstuck
    · exact prepared_opened h' hparser hpos hstack _
    · exact h'
  · exact prepared_feedRest h data

/-! ## Runs -/

theorem Prepared.step {a : ClientAction} (h : Prepared s) (hstep : s.step lib a = some t)
    (hstuck : t.stuck = false) : Prepared t := by
  have hidle : s.idle = true → 0 < s.session := by
    intro hidle
    simp only [WebSocketClient.idle, Bool.and_eq_true] at hidle
    exact h.channel hidle.1.2
  cases (stepped_of_step hstep).2.2 with
  | «open» o => exact prepared_open h o hstuck
  | send msg opcode mask r now =>
      by_cases hopened : s.m_wsState = .opened
      · have hpos : 0 < s.session := by
          obtain ⟨opening, hopening, hsession⟩ := h.opened hopened
          exact hsession ▸ (h.openings opening hopening).1
        exact h.fate (h.parser_eq hopened) (.send s msg opcode mask r now)
          (.send s msg opcode mask r now) (fate_send (h.close_cb hpos) msg opcode mask r now) hstuck
      · rw [WebSocketClient.send, if_pos hopened]
        exact h
  | close =>
      unfold WebSocketClient.close at hstuck ⊢
      split_ifs at hstuck ⊢ with hm
      · exact prepared_ioClose h.toInSessions h.toChannelled (h.channel hm) .clientClose
          clientClose_ne_upgrading hstuck
      · exact h.goOn fun n hn => absurd hn (clientClose_ne_upgrading n)
  | @ret frame rest hstack => exact prepared_ret h hstack
  | connectReady w hwritable hconnect =>
      simp only [WebSocketClient.writable, Bool.and_eq_true] at hwritable
      obtain ⟨hparser, hlambdas⟩ := h.connect hconnect
      have hbegins : Begins { s with connect := false } :=
        ⟨{ h with }, ⟨h.channel, h.close_cb, h.requested, nofun, h.onclose⟩,
          lt_of_le_of_ne h.parser_le hparser, hlambdas, rfl,
          (h.unread hparser).imp id (.imp id And.right)⟩
      exact prepared_ioConnectCb hbegins w hstuck
  | connectTimeout hid _ =>
      exact prepared_ioClose h.toInSessions h.toChannelled (hidle hid) .nothing
        nothing_ne_upgrading hstuck
  | recv hreadable _ => exact prepared_onread h hreadable _ hstuck
  | readEnds hreadable =>
      exact prepared_ioClose h.toInSessions h.toChannelled (h.readable hreadable).2 .nothing
        nothing_ne_upgrading hstuck
  | writeReady r now hwritable hconnect =>
      simp only [WebSocketClient.writable, WebSocketClient.idle, Bool.and_eq_true,
        Bool.not_eq_true', decide_eq_true_eq] at hwritable
      obtain ⟨⟨⟨-, hm⟩, hopen⟩, hevents⟩ := hwritable
      have hparser : s.parser = s.session := by
        by_contra hno
        rcases h.unread hno with hclosed | h0 | ⟨hyes, -⟩
        · rw [hopen] at hclosed
          cases hclosed
        · exact events_ne_zero hevents h0
        · rw [hconnect] at hyes
          cases hyes
      exact h.fate hparser (.ioWriteCb s r now) (.ioWriteCb s r now)
        (fate_ioWriteCb (h.close_cb (h.channel hm)) r now) hstuck

theorem prepared_new (lib : ClientLib σ) (fresh : Uninitialised) (loop : Loop) :
    Prepared (WebSocketClient.new lib fresh loop) :=
  ⟨⟨le_rfl, nofun, nofun, nofun, nofun, nofun, nofun, nofun, fun _ => rfl⟩,
    ⟨nofun, nofun, nofun, nofun, nofun⟩, fun hno => absurd rfl hno⟩

/-- Every client that has come about is prepared, unless it is stuck. -/
theorem prepared_exec {fresh : Uninitialised} {loop : Loop} {run : List ClientAction}
    (hrun : exec (WebSocketClient.step lib) (.new lib fresh loop) run = some s)
    (hstuck : s.stuck = false) : Prepared s := by
  have halong : Along (WebSocketClient.step lib) (fun s => s.stuck = false → Prepared s)
      (.new lib fresh loop) run :=
    along_of_meets (fun s a t h _ hstep hstuck => (h (stepped_of_step hstep).1).step hstep hstuck)
      (fun _ => prepared_new lib fresh loop) (Meets.trivial run)
  exact halong.exec hrun hstuck

/-- What holds of a client in the call of `onopen`, with what came behind the response. -/
structure Upgraded (s : WebSocketClient σ) (rest : Bytes) : Prop where
  state : s.m_wsState = .opened
  defined : s.misused = false
  stack : s.stack = [.onopen rest]
  closed : s.conn.io.closed = false
  close_cb : s.conn.io.close_cb = true
  channel : s.m_channel = true
  lambdas : s.lambdas = true
  connect : s.connect = false
  parser : s.parser = s.session
  buffer : s.m_wsBuffer = []
  onclose : (s.session, .onclose) ∉ s.calls
  onmessage : ∀ m, (s.session, .onmessage m) ∉ s.calls
  handled : ∀ h ∈ s.handled, h.session ≠ s.session

theorem Prepared.upgraded {data : Bytes} (h : Prepared s) (hupgrading : s.m_wsState = .upgrading)
    (hstep : s.step lib (.recv data) = some t) (hopened : t.m_wsState = .opened) :
    ∃ rest, Upgraded t rest := by
  obtain ⟨-, hdefined, hstepped⟩ := stepped_of_step hstep
  cases hstepped with
  | recv hreadable _ =>
      obtain ⟨hparser, hpos⟩ := h.readable hreadable
      have hunopened := h.upgrading hupgrading
      simp only [WebSocketClient.readable, WebSocketClient.idle, Bool.and_eq_true,
        List.isEmpty_iff, Bool.not_eq_true'] at hreadable
      obtain ⟨⟨⟨⟨hstack, hm⟩, hopen⟩, -⟩, -⟩ := hreadable
      revert hopened
      unfold WebSocketClient.onread
      rw [if_pos hupgrading]
      dsimp only
      have hnot : ∀ {t}, Spares (s.parsed lib data) t → t.m_wsState ≠ .opened := by
        intro t hspares hopened
        have hstate := hspares.state hopened
        rw [show s.m_wsState = .opened from hstate] at hupgrading
        cases hupgrading
      split_ifs
      · exact fun hopened => absurd hopened (hnot (.ioClose _ .nothing))
      · exact fun hopened => absurd hopened (hnot (.ioClose _ .nothing))
      · exact fun hopened => absurd hopened (hnot (.ioClose _ .nothing))
      · refine fun hopened => ⟨_, hopened, hdefined, congrArg _ hstack, hopen,
          h.close_cb hpos, hm, h.requested hparser hpos, ?_, hparser, h.buffer fun o ho => ?_,
          fun hcall => ?_, fun m hcall => ?_, fun handled hhandled heq => ?_⟩
        · by_contra hconnect
          exact (h.connect ((Bool.not_eq_false _).mp hconnect)).1 hparser
        · exact hparser ▸ hunopened o ho
        · rcases List.mem_append.mp hcall with hold | hnew
          · have hclosed := (h.onclose _ hold).2 rfl
            rw [hopen] at hclosed
            cases hclosed
          · exact nomatch (Prod.mk.inj (List.mem_singleton.mp hnew)).2
        · rcases List.mem_append.mp hcall with hold | hnew
          · obtain ⟨opening, hopening, hsession⟩ := h.called _ m hold
            exact absurd hsession (hunopened opening hopening).ne
          · exact nomatch (Prod.mk.inj (List.mem_singleton.mp hnew)).2
        · obtain ⟨opening, hopening, hsession⟩ := h.handled handled hhandled
          exact absurd (hsession.trans heq) (hunopened opening hopening).ne
      · exact fun hopened => absurd hopened (hnot (.refl _))

end LibConn.Http
