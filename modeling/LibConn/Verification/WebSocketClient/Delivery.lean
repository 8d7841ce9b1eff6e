import Mathlib.Data.List.Flatten
import LibConn.Shared.Run
import LibConn.Verification.WebSocket.Wire
import LibConn.Verification.WebSocketClient.Openings

/-! # What a client delivers

The frames of a session reach the parser in order, however they arrive. The parser hands over
each of them through the same callback, and goes on behind a callback that has closed the
connection; so a client delivers well exactly as long as no control frame is handed over, and
nothing is left in the buffer behind a callback that closes. -/

namespace LibConn.Http

open LibConn.Run
open LibConn.WebSocket

variable {σ : Type}

/-! ## Receiving -/

/-- `WS_OPCODE_CLOSE`, `WS_OPCODE_PING` or `WS_OPCODE_PONG` -/
def isControl (m : Message) : Bool :=
  m.opcode = 0x8 || m.opcode = 0x9 || m.opcode = 0xA

/-- `WS_OPCODE_TEXT` or `WS_OPCODE_BINARY` -/
def isData (m : Message) : Bool :=
  m.opcode = 0x1 || m.opcode = 0x2

/-- A client in one session, with what the peer has still to deliver; `sent` is the number of
the writes before. -/
structure Receiving (σ : Type) where
  session : ℕ
  sent : ℕ
  client : WebSocketClient σ
  wire : Bytes

inductive ReceiveAction where
  /-- the next bytes of the peer arrive -/
  | recv (size : ℕ)
  | client (a : ClientAction)

/-- The session of a client begins to receive: the peer has this still to deliver. -/
def Receiving.start (client : WebSocketClient σ) (wire : Bytes) : Receiving σ where
  session := client.session
  sent := client.written.length
  client := client
  wire := wire

/-- What came behind the response, in the call of `onopen`. -/
def behindResponse (s : WebSocketClient σ) : Bytes :=
  match s.stack with
  | .onopen data :: _ => data
  | _ => []

/-- One step, as long as the session is there or a callback runs. -/
def Receiving.step (lib : ClientLib σ) (r : Receiving σ) : ReceiveAction → Option (Receiving σ)
  | .recv size =>
      if r.client.session = r.session then
        (r.client.step lib (.recv (r.wire.take size))).map fun client =>
          { r with client := client, wire := r.wire.drop size }
      else none
  | .client (.recv _) => none
  | .client a =>
      if r.client.session = r.session ∨ r.client.stack ≠ [] then
        (r.client.step lib a).map fun client => { r with client := client }
      else none

/-- The connection of the session is open. -/
def Receiving.connected (r : Receiving σ) : Bool :=
  decide (r.client.session = r.session) && !r.client.conn.io.closed

/-- The loop waits for events. -/
def Receiving.waiting (r : Receiving σ) : Bool :=
  r.client.stack.isEmpty && !r.client.stuck

/-- The frames of the session that were handed over. -/
def Receiving.handled (r : Receiving σ) : List Handled :=
  r.client.handled.filter fun h => h.session = r.session

/-- The messages of the session that `onmessage` was called with. -/
def Receiving.messages (r : Receiving σ) : List Message :=
  r.client.calls.filterMap fun (session, call) =>
    match call with
    | .onmessage m => if session = r.session then some m else none
    | _ => none

/-- The frames of the given type that were handed over on the open connection. -/
def Receiving.received (r : Receiving σ) (opcode : UInt8) : List Handled :=
  r.handled.filter fun h => h.isOpen && decide (h.m.opcode = opcode)

/-- The PONG frames given to `io_write`. -/
def Receiving.pongs (r : Receiving σ) : List Bytes :=
  (r.client.written.drop r.sent).filter fun data => (headerAt data).opcode = 0xA

/-- The frames are handed over in order, and none that has arrived is kept back. `onmessage` is
called exactly for the data frames that come in on the open connection, never for a control
frame, and never after `onclose`. A PING is answered, and a CLOSE ends the connection. -/
structure Delivers (fs : List WireFrame) (r : Receiving σ) : Prop where
  defined : r.client.misused = false
  ordered : r.handled.map Handled.m = (fs.take r.handled.length).map WireFrame.message
  complete : r.waiting = true → r.connected = true → ∀ k < fs.length,
    r.wire.length ≤ ((fs.drop (k + 1)).flatMap WireFrame.bytes).length → k < r.handled.length
  data : r.messages.filter isData =
    ((r.handled.filter Handled.isOpen).map Handled.m).filter isData
  control : ∀ m ∈ r.messages, isControl m = false
  pings : r.waiting = true → (r.received 0x9).length ≤ r.pongs.length
  closes : r.waiting = true → r.received 0x8 ≠ [] → r.connected = false
  quiet : r.client.calls.Pairwise fun call call' =>
    call = (r.session, .onclose) → ∀ m, call' ≠ (r.session, .onmessage m)

/-- What the parser hands over next is no control frame. -/
def NoControl (m_wsBuffer : Bytes) : Prop :=
  ∀ m rest, peel m_wsBuffer = .item m rest → isControl m = false

/-- The conditions under which a step delivers: no control frame is handed over, and behind a
callback the connection is open or there is no frame left, and the parser is there; a new
connection is opened only when the last is over. -/
def DeliveryGuard (r : Receiving σ) : ReceiveAction → Prop
  | .recv size => NoControl (r.client.m_wsBuffer ++ r.wire.take size)
  | .client .ret =>
      match r.client.stack.head? with
      | some (.onopen data) =>
          r.client.m_wsState = .opened → NoControl (r.client.m_wsBuffer ++ data)
      | some (.onmessage parser rest) =>
          r.client.parser = parser ∧ NoControl rest ∧
            (peel rest ≠ .wait → r.connected = true)
      | _ => True
  | .client (.open o) =>
      r.client.m_wsState = .closed → o.io.isSome = true → r.client.live = false
  | _ => True

/-! ## Handing over -/

section HandingOver

variable {fs : List WireFrame} {r : Receiving σ} {s t : WebSocketClient σ} {m : Message}
  {rest : Bytes}

/-- What the parser does with a frame: it calls `onmessage`. -/
def WebSocketClient.handOver (s : WebSocketClient σ) (m : Message) (rest : Bytes) :
    WebSocketClient σ :=
  ((s.handle m).call s.parser (.onmessage m)).push (.onmessage s.parser rest)

theorem handOver_eq (s : WebSocketClient σ) (m : Message) (rest : Bytes) :
    s.handOver m rest =
      { s with
        handled := s.handled ++ [⟨s.parser, m, decide (s.session = s.parser) && !s.conn.io.closed⟩]
        calls := s.calls ++ [(s.parser, .onmessage m)]
        stack := .onmessage s.parser rest :: s.stack } :=
  rfl

theorem parserLoop_wait (h : peel s.m_wsBuffer = .wait) : s.parserLoop = s := by
  rw [WebSocketClient.parserLoop, peel_eq_wait_iff.mp h]

theorem parserLoop_item (h : peel s.m_wsBuffer = .item m rest) (hset : s.m_wsOnMessage = true) :
    s.parserLoop = s.handOver m rest := by
  unfold WebSocketClient.parserLoop
  rw [peel] at h
  cases hturn : turn s.m_wsBuffer with
  | wait =>
      rw [hturn] at h
      cases h
  | overrun =>
      rw [hturn] at h
      cases h
  | frame m' unmasked consumed =>
      rw [hturn] at h
      obtain ⟨rfl, rfl⟩ := Peeling.Outcome.item.inj h
      exact if_pos hset

/-- What has happened in the session so far: the frames were handed over in order, all of them
on the open connection, and each of them led to a call of `onmessage`. -/
structure FramesInOrder (fs : List WireFrame) (r : Receiving σ) : Prop where
  defined : r.client.misused = false
  ordered : r.handled.map Handled.m = (fs.take r.handled.length).map WireFrame.message
  accepted : ∀ h ∈ r.handled, h.isOpen = true ∧ isControl h.m = false
  messages : r.messages = r.handled.map Handled.m
  quiet : r.client.calls.Pairwise fun call call' =>
    call = (r.session, .onclose) → ∀ m, call' ≠ (r.session, .onmessage m)

theorem FramesInOrder.of_calls (h : FramesInOrder fs r) {r' : Receiving σ}
    (session : r'.session = r.session)
    (misused : r'.client.misused = r.client.misused)
    (handled : r'.client.handled = r.client.handled) (calls : r'.client.calls = r.client.calls) :
    FramesInOrder fs r' := by
  have hhandled : r'.handled = r.handled := by
    rw [Receiving.handled, handled, session, Receiving.handled]
  have hmessages : r'.messages = r.messages := by
    rw [Receiving.messages, calls, session, Receiving.messages]
  refine ⟨misused.trans h.defined, ?_, ?_, ?_, ?_⟩
  · rw [hhandled]
    exact h.ordered
  · rw [hhandled]
    exact h.accepted
  · rw [hhandled, hmessages]
    exact h.messages
  · rw [calls, session]
    exact h.quiet

theorem FramesInOrder.spares (h : FramesInOrder fs r) (hspares : Spares r.client t) :
    FramesInOrder fs { r with client := t } := by
  obtain ⟨n, hcalls⟩ := hspares.calls
  have hhandled : ({ r with client := t } : Receiving σ).handled = r.handled := by
    rw [Receiving.handled, hspares.handled, Receiving.handled]
  have hmessages : ({ r with client := t } : Receiving σ).messages = r.messages := by
    rw [Receiving.messages, hcalls, List.filterMap_append, List.filterMap_replicate_of_none rfl,
      List.append_nil, Receiving.messages]
  refine ⟨hspares.misused.trans h.defined, ?_, ?_, ?_, ?_⟩
  · rw [hhandled]
    exact h.ordered
  · rw [hhandled]
    exact h.accepted
  · rw [hhandled, hmessages]
    exact h.messages
  · dsimp only
    rw [hcalls, List.pairwise_append]
    refine ⟨h.quiet, ?_, fun call _ call' hcall' _ m hm => ?_⟩
    · rw [List.pairwise_replicate]
      exact .inr fun _ _ hm => nomatch (Prod.mk.inj hm).2
    · rw [(List.mem_replicate.mp hcall').2] at hm
      exact nomatch (Prod.mk.inj hm).2

theorem handled_handOver (hparser : r.client.parser = r.session) :
    ({ r with client := r.client.handOver m rest } : Receiving σ).handled =
      r.handled ++ [⟨r.session, m, r.connected⟩] := by
  simp [Receiving.handled, handOver_eq, Receiving.connected, hparser]

theorem messages_handOver (hparser : r.client.parser = r.session) :
    ({ r with client := r.client.handOver m rest } : Receiving σ).messages = r.messages ++ [m] := by
  simp [Receiving.messages, handOver_eq, hparser]

theorem FramesInOrder.handOver (h : FramesInOrder fs r) (hparser : r.client.parser = r.session)
    {f : WireFrame} {fs' : List WireFrame} (hnext : fs.drop r.handled.length = f :: fs')
    (hcontrol : isControl f.message = false) (hconnected : r.connected = true)
    (hcalled : (r.session, .onclose) ∉ r.client.calls) :
    FramesInOrder fs { r with client := r.client.handOver f.message rest } := by
  have hhandled : ({ r with client := r.client.handOver f.message rest } : Receiving σ).handled =
      r.handled ++ [⟨r.session, f.message, r.connected⟩] := handled_handOver hparser
  have hget : fs[r.handled.length]? = some f := by
    rw [← List.head?_drop, hnext]
    rfl
  refine ⟨h.defined, ?_, ?_, ?_, ?_⟩
  · rw [hhandled, List.length_append, List.length_singleton, List.map_append, h.ordered,
      List.take_add_one, hget]
    simp
  · rw [hhandled]
    intro handled hmem
    rcases List.mem_append.mp hmem with hold | hnew
    · exact h.accepted handled hold
    · rw [List.mem_singleton.mp hnew]
      exact ⟨hconnected, hcontrol⟩
  · rw [hhandled, messages_handOver hparser, h.messages, List.map_append]
    rfl
  · refine List.pairwise_append.mpr ⟨h.quiet, List.pairwise_singleton _ _, ?_⟩
    intro call hcall call' _ honclose
    rw [honclose] at hcall
    exact absurd hcall hcalled

theorem not_delivers_control (hparser : r.client.parser = r.session)
    (hcontrol : isControl m = true) :
    ¬ Delivers fs { r with client := r.client.handOver m rest } := by
  intro hdelivers
  have hm := hdelivers.control m (by rw [messages_handOver hparser]; simp)
  rw [hm] at hcontrol
  cases hcontrol

theorem not_delivers_quiet (hparser : r.client.parser = r.session)
    (hcalled : (r.session, .onclose) ∈ r.client.calls) :
    ¬ Delivers fs { r with client := r.client.handOver m rest } := by
  intro hdelivers
  refine (List.pairwise_append.mp hdelivers.quiet).2.2 _ hcalled (r.client.parser, .onmessage m)
    List.mem_cons_self rfl m ?_
  rw [hparser]

end HandingOver

/-! ## Between the steps -/

/-- What holds of a client while the connection of its session is open. -/
structure Alive (s : WebSocketClient σ) : Prop where
  state : s.m_wsState = .opened
  parser : s.parser = s.session
  lambdas : s.lambdas = true
  channel : s.m_channel = true
  close_cb : s.conn.io.close_cb = true
  connect : s.connect = false
  called : (s.session, .onclose) ∉ s.calls

/-- The session is open, or `onclose` has been called. -/
structure OpenOrEnded (r : Receiving σ) : Prop where
  ended : r.connected = true ∨ (r.session, .onclose) ∈ r.client.calls
  alive : r.connected = true → Alive r.client
  opened : r.client.m_wsState = .opened → r.connected = true
  session_le : r.session ≤ r.client.session

/-- Where the bytes are that have arrived and are not handed over, with the frames on the stack
below those of `onclose`. -/
inductive Pending (r : Receiving σ) (bytes : Bytes) : List UserFrame → Prop where
  | waits (h : r.connected = true →
      r.client.m_wsBuffer = bytes ∧ peel bytes = .wait ∧ r.client.m_wsOnMessage = true) :
      Pending r bytes []
  | onopen (h : r.connected = true → r.client.m_wsBuffer = []) : Pending r bytes [.onopen bytes]
  | onmessage (h : r.client.parser = r.session → r.client.m_wsOnMessage = true) :
      Pending r bytes [.onmessage r.session bytes]

/-- The frames that are not handed over are those of the bytes that are still somewhere. -/
structure Awaits (fs : List WireFrame) (r : Receiving σ) : Prop extends OpenOrEnded r where
  pending : ∃ frames base bytes, r.client.stack = frames ++ base ∧
    (∀ frame ∈ frames, frame.isOnclose) ∧ (r.connected = true → frames = []) ∧
      Pending r bytes base ∧
      bytes ++ r.wire = (fs.drop r.handled.length).flatMap WireFrame.bytes

structure Receives (fs : List WireFrame) (r : Receiving σ) : Prop where
  inOrder : FramesInOrder fs r
  awaits : r.client.stuck = false → Awaits fs r

section Between

variable {fs : List WireFrame} {r : Receiving σ} {s t : WebSocketClient σ} {m : Message}
  {rest : Bytes}

theorem connected_iff :
    r.connected = true ↔ r.client.session = r.session ∧ r.client.conn.io.closed = false := by
  simp [Receiving.connected]

theorem length_drop_le (fs : List WireFrame) {n k : ℕ} (h : n ≤ k) :
    ((fs.drop k).flatMap WireFrame.bytes).length ≤
      ((fs.drop n).flatMap WireFrame.bytes).length :=
  ((List.drop_sublist_drop_left fs h).flatMap _).length_le

theorem Receives.delivers (h : Receives fs r) : Delivers fs r := by
  have horder := h.inOrder
  have hnone : ∀ opcode, isControl ⟨opcode, []⟩ = true → r.received opcode = [] := by
    intro opcode hopcode
    rw [Receiving.received, List.filter_eq_nil_iff]
    intro handled hmem hboth
    simp only [Bool.and_eq_true, decide_eq_true_eq] at hboth
    have hcontrol := (horder.accepted handled hmem).2
    rw [isControl, hboth.2] at hcontrol
    rw [isControl, hcontrol] at hopcode
    cases hopcode
  have hopen : r.handled.filter Handled.isOpen = r.handled :=
    List.filter_eq_self.mpr fun handled hmem => (horder.accepted handled hmem).1
  refine ⟨horder.defined, horder.ordered, ?_, ?_, ?_, ?_, ?_, horder.quiet⟩
  · intro hwaiting hconnected k hk harrived
    simp only [Receiving.waiting, Bool.and_eq_true, List.isEmpty_iff, Bool.not_eq_true']
      at hwaiting
    obtain ⟨hstack, hstuck⟩ := hwaiting
    obtain ⟨frames, base, bytes, hframes, -, -, hpending, hbytes⟩ := (h.awaits hstuck).pending
    obtain ⟨rfl, rfl⟩ := List.append_eq_nil_iff.mp (hframes.symm.trans hstack)
    cases hpending with
    | waits hwaits =>
        obtain ⟨-, hwait, -⟩ := hwaits hconnected
        rcases WireFrame.peel_arrived hbytes with ⟨-, hmore⟩ | ⟨f, fs', rest, -, hitem, -⟩
        · by_contra hlate
          have hlt : r.handled.length < fs.length := by omega
          have hlong := hmore _ _ (List.drop_eq_getElem_cons hlt)
          have hle := length_drop_le fs (show r.handled.length + 1 ≤ k + 1 by omega)
          omega
        · rw [hwait] at hitem
          cases hitem
  · rw [horder.messages, hopen]
  · rw [horder.messages]
    intro m hm
    obtain ⟨handled, hmem, rfl⟩ := List.mem_map.mp hm
    exact (horder.accepted handled hmem).2
  · intro _
    rw [hnone 0x9 rfl]
    exact Nat.zero_le _
  · intro _ hclose
    exact absurd (hnone 0x8 rfl) hclose

theorem OpenOrEnded.handOver (h : OpenOrEnded r) :
    OpenOrEnded { r with client := r.client.handOver m rest } := by
  rw [handOver_eq]
  refine ⟨h.ended.imp id fun hcalled => List.mem_append_left _ hcalled, fun hconnected => ?_,
    h.opened, h.session_le⟩
  have halive := h.alive hconnected
  refine ⟨halive.state, halive.parser, halive.lambdas, halive.channel, halive.close_cb,
    halive.connect, fun hcalled => ?_⟩
  rcases List.mem_append.mp hcalled with hold | hnew
  · exact halive.called hold
  · exact nomatch (Prod.mk.inj (List.mem_singleton.mp hnew)).2

theorem receives_parserLoop (horder : FramesInOrder fs r) (hsession : OpenOrEnded r)
    (hparser : r.client.parser = r.session) (hset : r.client.m_wsOnMessage = true)
    (hstack : r.client.stack = [])
    (hbytes : r.client.m_wsBuffer ++ r.wire =
      (fs.drop r.handled.length).flatMap WireFrame.bytes) :
    (NoControl r.client.m_wsBuffer ∧ (peel r.client.m_wsBuffer ≠ .wait → r.connected = true)) ∧
        Receives fs { r with client := r.client.parserLoop } ∨
      ¬ (NoControl r.client.m_wsBuffer ∧
          (peel r.client.m_wsBuffer ≠ .wait → r.connected = true)) ∧
        ¬ Delivers fs { r with client := r.client.parserLoop } := by
  rcases WireFrame.peel_arrived hbytes with ⟨hwait, -⟩ | ⟨f, fs', rest, hnext, hitem, hrest⟩
  · rw [parserLoop_wait hwait]
    refine .inl ⟨⟨fun m rest hitem => ?_, fun hno => absurd hwait hno⟩, horder, fun _ => ?_⟩
    · rw [hwait] at hitem
      cases hitem
    · exact ⟨hsession, [], [], _, hstack, nofun, fun _ => rfl, .waits fun _ => ⟨rfl, hwait, hset⟩,
        hbytes⟩
  · rw [parserLoop_item hitem hset]
    cases hcontrol : isControl f.message with
    | true =>
        refine .inr ⟨fun hguard => ?_, not_delivers_control hparser hcontrol⟩
        rw [hguard.1 _ _ hitem] at hcontrol
        cases hcontrol
    | false =>
        have hno : NoControl r.client.m_wsBuffer := by
          intro m rest' hitem'
          rw [hitem] at hitem'
          obtain ⟨rfl, -⟩ := Peeling.Outcome.item.inj hitem'
          exact hcontrol
        by_cases hconnected : r.connected = true
        · have hcalled := (hsession.alive hconnected).called
          rw [(connected_iff.mp hconnected).1] at hcalled
          have hstill : (r.client.handOver f.message rest).m_wsOnMessage = true := by
            rw [handOver_eq]
            exact hset
          refine .inl ⟨⟨hno, fun _ => hconnected⟩,
            horder.handOver hparser hnext hcontrol hconnected hcalled, fun _ => ?_⟩
          refine ⟨hsession.handOver, [], [.onmessage r.session rest], rest, ?_, nofun, fun _ => rfl,
            .onmessage fun _ => hstill, ?_⟩
          · simp [handOver_eq, hstack, hparser]
          · rw [handled_handOver hparser, List.length_append, List.length_singleton,
              ← List.drop_drop, hnext]
            exact hrest
        · refine .inr ⟨fun hguard => hconnected (hguard.2 ?_), not_delivers_quiet hparser ?_⟩
          · rw [hitem]
            nofun
          · exact hsession.ended.resolve_left hconnected

/-- What a step leaves of the rest, when it hands over nothing. -/
theorem Awaits.next (h : Awaits fs r)
    (stack : ∃ frames, t.stack = frames ++ r.client.stack ∧ ∀ frame ∈ frames, frame.isOnclose)
    (calls : r.client.calls <+: t.calls) (handled : t.handled = r.client.handled)
    (session : r.session ≤ t.session)
    (parser : t.parser = r.session →
      r.client.parser = r.session ∧ t.m_wsOnMessage = r.client.m_wsOnMessage)
    (opened : t.m_wsState = .opened → ({ r with client := t } : Receiving σ).connected = true)
    (connected : ({ r with client := t } : Receiving σ).connected = true →
      r.connected = true ∧ Alive t ∧ t.stack = r.client.stack ∧ SameParser r.client t)
    (ended : r.connected = true → ({ r with client := t } : Receiving σ).connected = false →
      (r.session, .onclose) ∈ t.calls) :
    Awaits fs { r with client := t } := by
  obtain ⟨frames, base, bytes, hstack, honclose, hnone, hpending, hbytes⟩ := h.pending
  obtain ⟨frames', hstack', honclose'⟩ := stack
  have hhandled : ({ r with client := t } : Receiving σ).handled = r.handled := by
    rw [Receiving.handled, handled, Receiving.handled]
  refine ⟨⟨?_, fun hconnected => (connected hconnected).2.1, opened, session⟩, frames' ++ frames,
    base, bytes, ?_, ?_, fun hconnected => ?_, ?_, ?_⟩
  · cases hconnected : ({ r with client := t } : Receiving σ).connected with
    | true => exact .inl rfl
    | false =>
        right
        rcases h.ended with hold | hcalled
        · exact ended hold hconnected
        · exact calls.subset hcalled
  · dsimp only
    rw [hstack', hstack, List.append_assoc]
  · intro frame hframe
    exact (List.mem_append.mp hframe).elim (honclose' frame) (honclose frame)
  · obtain ⟨hold, -, hsame, -⟩ := connected hconnected
    rw [hsame] at hstack'
    rw [List.self_eq_append_left.mp hstack', hnone hold]
    rfl
  · cases hpending with
    | waits hwaits =>
        refine .waits fun hconnected => ?_
        obtain ⟨hold, -, -, hparser⟩ := connected hconnected
        obtain ⟨hbuffer, hwait, hset⟩ := hwaits hold
        exact ⟨hparser.buffer.trans hbuffer, hwait, hparser.onMessage.trans hset⟩
    | onopen hbuffer =>
        refine .onopen fun hconnected => ?_
        obtain ⟨hold, -, -, hparser⟩ := connected hconnected
        exact hparser.buffer.trans (hbuffer hold)
    | onmessage hset =>
        refine .onmessage fun hparser => ?_
        obtain ⟨hold, hsame⟩ := parser hparser
        exact hsame.trans (hset hold)
  · rw [hhandled]
    exact hbytes

/-- A step of the session whose connection is open, which hands over nothing. -/
theorem Receives.fate (h : Receives fs r) (hstuck : r.client.stuck = false)
    (hconnected : r.connected = true) (hspares : Spares r.client t) (hfate : Fate r.client t) :
    Receives fs { r with client := t } := by
  obtain ⟨hsession, hopen⟩ := connected_iff.mp hconnected
  have hawaits := h.awaits hstuck
  have halive := hawaits.alive hconnected
  have hle : r.session ≤ t.session := hawaits.session_le.trans hspares.session.ge
  refine ⟨h.inOrder.spares hspares, fun hstuck' => ?_⟩
  cases hfate with
  | stuck hno =>
      rw [show t.stuck = false from hstuck'] at hno
      cases hno
  | keeps channel closed state calls stack parser =>
      have hconnected' : ({ r with client := t } : Receiving σ).connected = true :=
        connected_iff.mpr ⟨hspares.session.trans hsession, closed.trans hopen⟩
      have hstate : t.m_wsState = r.client.m_wsState := by
        refine state.resolve_right fun hno => ?_
        rw [hopen] at hno
        cases hno.1
      refine hawaits.next hspares.stack hspares.calls_prefix hspares.handled hle
        (fun hparser => ⟨parser.parser.symm.trans hparser, parser.onMessage⟩)
        (fun _ => hconnected') (fun _ => ⟨hconnected, ?_, stack, parser⟩) fun _ hno => ?_
      · exact ⟨hstate.trans halive.state, (parser.parser.trans halive.parser).trans
          hspares.session.symm, channel.lambdas.trans halive.lambdas,
          channel.channel.trans halive.channel, channel.close_cb.trans halive.close_cb,
          channel.connect.trans halive.connect, by rw [calls, hspares.session]; exact halive.called⟩
      · rw [hconnected'] at hno
        cases hno
  | ends _ closed state calls parser =>
      have hnot : ({ r with client := t } : Receiving σ).connected ≠ true := by
        intro hyes
        have hno := (connected_iff.mp hyes).2
        rw [show t.conn.io.closed = true from closed] at hno
        cases hno
      refine hawaits.next hspares.stack hspares.calls_prefix hspares.handled hle
        (fun hparser => ⟨parser.parser.symm.trans hparser, parser.onMessage⟩)
        (fun hopened => ?_) (fun hyes => absurd hyes hnot)
        fun _ _ => hsession ▸ calls halive.lambdas
      rw [state halive.lambdas] at hopened
      cases hopened

theorem Receives.lost (h : Receives fs r) (hstuck : r.client.stuck = false)
    (hnot : r.connected = false) (hspares : Spares r.client t)
    (closed : r.client.session = r.session → t.conn.io.closed = true)
    (parser : r.client.session = r.session → SameParser r.client t) :
    Receives fs { r with client := t } := by
  have hawaits := h.awaits hstuck
  have hnot' : ({ r with client := t } : Receiving σ).connected ≠ true := by
    intro hyes
    obtain ⟨hsession, hopen⟩ := connected_iff.mp hyes
    have hno := closed (hspares.session.symm.trans hsession)
    rw [show t.conn.io.closed = false from hopen] at hno
    cases hno
  refine ⟨h.inOrder.spares hspares, fun _ => ?_⟩
  refine hawaits.next hspares.stack hspares.calls_prefix hspares.handled
    (hawaits.session_le.trans hspares.session.ge) (fun hparser => ?_)
    (fun hopened => ?_) (fun hyes => absurd hyes hnot') fun hyes _ => ?_
  · rcases hspares.parser with hsame | ⟨hnew, -⟩
    · exact ⟨hsame.parser.symm.trans hparser, hsame.onMessage⟩
    · have hsame := parser (hnew.symm.trans hparser)
      exact ⟨hsame.parser.symm.trans hparser, hsame.onMessage⟩
  · rw [hawaits.opened (hspares.state hopened)] at hnot
    cases hnot
  · rw [hyes] at hnot
    cases hnot

end Between

/-! ## Steps -/

section Steps

variable {fs : List WireFrame} {r r' : Receiving σ} {lib : ClientLib σ}

theorem not_delivers_misused (h : r.client.misused = true) : ¬ Delivers fs r := by
  intro hdelivers
  rw [hdelivers.defined] at h
  cases h

theorem OpenOrEnded.of_client (h : OpenOrEnded r) (hsession : r'.session = r.session)
    (state : r'.client.m_wsState = r.client.m_wsState)
    (session : r'.client.session = r.client.session) (conn : r'.client.conn = r.client.conn)
    (parser : r'.client.parser = r.client.parser) (lambdas : r'.client.lambdas = r.client.lambdas)
    (channel : r'.client.m_channel = r.client.m_channel)
    (connect : r'.client.connect = r.client.connect)
    (calls : r'.client.calls = r.client.calls) : OpenOrEnded r' := by
  have hconnected : r'.connected = r.connected := by
    rw [Receiving.connected, session, conn, hsession, Receiving.connected]
  refine ⟨?_, fun hyes => ?_, fun hopened => ?_, ?_⟩
  · rw [hconnected, calls, hsession]
    exact h.ended
  · have halive := h.alive (hconnected ▸ hyes)
    exact ⟨state.trans halive.state, (parser.trans halive.parser).trans session.symm,
      lambdas.trans halive.lambdas, channel.trans halive.channel,
      (congrArg (·.io.close_cb) conn).trans halive.close_cb, connect.trans halive.connect,
      by rw [calls, session]; exact halive.called⟩
  · rw [hconnected]
    exact h.opened (state.symm.trans hopened)
  · rw [hsession, session]
    exact h.session_le

theorem receives_recv (h : Receives fs r) (hstuck : r.client.stuck = false) {size : ℕ}
    (hsession : r.client.session = r.session) (hreadable : r.client.readable = true)
    (hdata : r.wire.take size ≠ []) :
    NoControl (r.client.m_wsBuffer ++ r.wire.take size) ∧
        Receives fs { r with
          client := r.client.onread lib (r.wire.take size)
          wire := r.wire.drop size } ∨
      ¬ NoControl (r.client.m_wsBuffer ++ r.wire.take size) ∧
        ¬ Delivers fs { r with
          client := r.client.onread lib (r.wire.take size)
          wire := r.wire.drop size } := by
  simp only [WebSocketClient.readable, WebSocketClient.idle, Bool.and_eq_true,
    List.isEmpty_iff, Bool.not_eq_true'] at hreadable
  obtain ⟨⟨⟨⟨hstack, -⟩, hopen⟩, -⟩, -⟩ := hreadable
  have hconnected : r.connected = true := connected_iff.mpr ⟨hsession, hopen⟩
  have hawaits := h.awaits hstuck
  have halive := hawaits.alive hconnected
  obtain ⟨frames, base, bytes, hframes, -, -, hpending, hbytes⟩ := hawaits.pending
  obtain ⟨rfl, rfl⟩ := List.append_eq_nil_iff.mp (hframes.symm.trans hstack)
  cases hpending with
  | waits hwaits =>
      obtain ⟨hbuffer, -, hset⟩ := hwaits hconnected
      have hread : r.client.onread lib (r.wire.take size) =
          { r.client with
            m_wsBuffer := r.client.m_wsBuffer ++ r.wire.take size }.parserLoop := by
        rw [WebSocketClient.onread, if_neg (by simp [halive.state]), WebSocketClient.feedRest,
          if_pos ⟨halive.state, hdata⟩]
      rw [hread]
      have hloop := receives_parserLoop (r := { r with
          client := { r.client with m_wsBuffer := r.client.m_wsBuffer ++ r.wire.take size }
          wire := r.wire.drop size })
        (h.inOrder.of_calls rfl rfl rfl rfl)
        (hawaits.toOpenOrEnded.of_client rfl rfl rfl rfl rfl rfl rfl rfl rfl)
        (halive.parser.trans hsession) hset hstack (by
          rw [hbuffer, List.append_assoc, List.take_append_drop]
          exact hbytes)
      refine hloop.imp (fun hok => ⟨hok.1.1, hok.2⟩) fun hno => ⟨fun hg => hno.1 ⟨hg, ?_⟩, hno.2⟩
      exact fun _ => hconnected

theorem receives_ret_base (horder : FramesInOrder fs r) (hopen : OpenOrEnded r)
    {bytes : Bytes} {frame : UserFrame} (hpending : Pending r bytes [frame])
    (hbytes : bytes ++ r.wire = (fs.drop r.handled.length).flatMap WireFrame.bytes)
    (hstack : r.client.stack = [frame]) :
    DeliveryGuard r (.client .ret) ∧
        Receives fs { r with client := { r.client with stack := [] }.ret frame } ∨
      ¬ DeliveryGuard r (.client .ret) ∧
        ¬ Delivers fs { r with client := { r.client with stack := [] }.ret frame } := by
  unfold DeliveryGuard
  dsimp only
  rw [hstack]
  cases hpending with
  | onopen hbuffer =>
      let client : WebSocketClient σ := { r.client with stack := [], m_wsOnMessage := true }
      have hclient : OpenOrEnded { r with client := client } :=
        hopen.of_client rfl rfl rfl rfl rfl rfl rfl rfl rfl
      have horder' : FramesInOrder fs { r with client := client } :=
        horder.of_calls rfl rfl rfl rfl
      change (r.client.m_wsState = .opened → NoControl (r.client.m_wsBuffer ++ bytes)) ∧
          Receives fs { r with client := client.feedRest bytes } ∨
        ¬ (r.client.m_wsState = .opened → NoControl (r.client.m_wsBuffer ++ bytes)) ∧
          ¬ Delivers fs { r with client := client.feedRest bytes }
      rw [WebSocketClient.feedRest]
      split_ifs with hfeeds
      · have hconnected := hopen.opened hfeeds.1
        have hparser := (hopen.alive hconnected).parser.trans (connected_iff.mp hconnected).1
        have hloop := receives_parserLoop
          (r := { r with client := { client with m_wsBuffer := client.m_wsBuffer ++ bytes } })
          (horder.of_calls rfl rfl rfl rfl) (hopen.of_client rfl rfl rfl rfl rfl rfl rfl rfl rfl)
          hparser rfl rfl (by
            rw [show client.m_wsBuffer = [] from hbuffer hconnected, List.nil_append]
            exact hbytes)
        rw [forall_prop_of_true hfeeds.1]
        refine hloop.imp (fun hok => ⟨hok.1.1, hok.2⟩) fun hno => ⟨fun hg => hno.1 ⟨hg, ?_⟩, hno.2⟩
        exact fun _ => hconnected
      · -- nothing came with the response, or the connection is over
        have hempty : r.connected = true → r.client.m_wsBuffer ++ bytes = [] := by
          intro hconnected
          rw [hbuffer hconnected, List.nil_append]
          by_contra hbytes'
          exact hfeeds ⟨(hopen.alive hconnected).state, hbytes'⟩
        refine .inl ⟨fun hopened m rest hitem => ?_, horder', fun _ => ⟨hclient, [], [], bytes, rfl,
          by simp, fun _ => rfl, .waits fun hconnected => ?_, hbytes⟩⟩
        · rw [hempty (hopen.opened hopened), peel_short (by decide)] at hitem
          cases hitem
        · obtain ⟨hbuffer', rfl⟩ := List.append_eq_nil_iff.mp (hempty hconnected)
          exact ⟨hbuffer', peel_short (by decide), rfl⟩
  | onmessage hset =>
      change (r.client.parser = r.session ∧ NoControl bytes ∧
            (peel bytes ≠ .wait → r.connected = true)) ∧ _ ∨
          ¬ (r.client.parser = r.session ∧ NoControl bytes ∧
            (peel bytes ≠ .wait → r.connected = true)) ∧ _
      unfold WebSocketClient.ret
      dsimp only
      split_ifs with hparser
      · have hloop := receives_parserLoop
          (r := { r with client := { r.client with stack := [], m_wsBuffer := bytes } })
          (horder.of_calls rfl rfl rfl rfl) (hopen.of_client rfl rfl rfl rfl rfl rfl rfl rfl rfl)
          hparser (hset hparser) rfl hbytes
        exact hloop.imp (fun hok => ⟨⟨hparser, hok.1⟩, hok.2⟩)
          fun hno => ⟨fun hg => hno.1 hg.2, hno.2⟩
      · exact .inr ⟨fun hg => hparser hg.1, not_delivers_misused rfl⟩

theorem receives_ret (h : Receives fs r) (hstuck : r.client.stuck = false) {frame : UserFrame}
    {rest : List UserFrame} (hstack : r.client.stack = frame :: rest) :
    DeliveryGuard r (.client .ret) ∧
        Receives fs { r with client := { r.client with stack := rest }.ret frame } ∨
      ¬ DeliveryGuard r (.client .ret) ∧
        ¬ Delivers fs { r with client := { r.client with stack := rest }.ret frame } := by
  have hawaits := h.awaits hstuck
  obtain ⟨frames, base, bytes, hframes, honclose, hnone, hpending, hbytes⟩ := hawaits.pending
  rw [hstack] at hframes
  cases frames with
  | nil =>
      obtain rfl : frame :: rest = base := hframes
      obtain rfl : rest = [] := by
        cases hpending <;> rfl
      exact receives_ret_base h.inOrder hawaits.toOpenOrEnded hpending hbytes hstack
  | cons frame' frames =>
      obtain ⟨rfl, rfl⟩ := List.cons.inj hframes
      have hnot : r.connected = false := by
        by_contra hconnected
        exact nomatch hnone ((Bool.not_eq_false _).mp hconnected)
      cases frame with
      | onopen data => exact absurd (honclose _ List.mem_cons_self) id
      | onmessage parser rest => exact absurd (honclose _ List.mem_cons_self) id
      | onclose after =>
          left
          refine ⟨by simp [DeliveryGuard, hstack], ?_⟩
          let client : WebSocketClient σ := { r.client with stack := frames ++ base }
          have hbelow : Receives fs { r with client := client } := by
            refine ⟨h.inOrder.of_calls rfl rfl rfl rfl, fun _ => ⟨hawaits.toOpenOrEnded.of_client
              rfl rfl rfl rfl rfl rfl rfl rfl rfl, frames, base, bytes, rfl,
              fun frame hframe => honclose frame (List.mem_cons_of_mem _ hframe),
              fun hconnected => ?_, ?_, hbytes⟩⟩
            · exact absurd ((show r.connected = true from hconnected).symm.trans hnot) nofun
            · cases hpending with
              | waits hwaits => exact .waits hwaits
              | onopen hbuffer => exact .onopen hbuffer
              | onmessage hset => exact .onmessage hset
          refine hbelow.lost (r := { r with client := client }) hstuck hnot (.goOn client after)
            (fun hsession => ?_) fun _ => goOn_sameParser client after
          refine (goOn_closed client after).trans ?_
          by_contra hopen
          have hconnected := connected_iff.mpr ⟨hsession, (Bool.not_eq_true _).mp hopen⟩
          exact absurd (hconnected.symm.trans hnot) nofun

theorem receives_open (h : Receives fs r) (hstuck : r.client.stuck = false) (o : OpenCall) :
    DeliveryGuard r (.client (.open o)) ∧
        Receives fs { r with client := (r.client.open lib o).2 } ∨
      ¬ DeliveryGuard r (.client (.open o)) ∧
        ¬ Delivers fs { r with client := (r.client.open lib o).2 } := by
  have hawaits := h.awaits hstuck
  rcases open_spares lib r.client o with ⟨hnot, hsame⟩ | ⟨hclosed, s', hnot, hspares, hmisused,
    -, hhandled, hcalls, hstack, -, -, -, hparser, hsession⟩
  · rw [hsame]
    exact .inl ⟨fun hclosed => absurd hclosed hnot, h⟩
  · have hguard : DeliveryGuard r (.client (.open o)) ↔ (o.io.isSome && r.client.live) = false := by
      unfold DeliveryGuard
      dsimp only
      rw [forall_prop_of_true hclosed, Bool.and_eq_false_imp]
    have hdead : r.connected = false := by
      by_contra hconnected
      have hstate := (hawaits.alive ((Bool.not_eq_false _).mp hconnected)).state
      rw [hclosed] at hstate
      cases hstate
    rw [hguard]
    rw [h.inOrder.defined, Bool.false_or] at hmisused
    cases hlive : o.io.isSome && r.client.live with
    | true =>
        refine .inr ⟨nofun, not_delivers_misused ?_⟩
        exact hspares.misused.trans (hmisused.trans hlive)
    | false =>
        left
        have hover : ({ r with client := (r.client.open lib o).2 } : Receiving σ).connected ≠
            true := by
          intro hyes
          obtain ⟨hsession', hopen⟩ := connected_iff.mp hyes
          rcases hsession with ⟨hsame, hold, hconn⟩ | hnew
          · rw [hsame] at hsession' hopen
            have hconnected : r.connected = true :=
              connected_iff.mpr ⟨hold.symm.trans hsession', hconn ▸ hopen⟩
            rw [hdead] at hconnected
            cases hconnected
          · have hle := hawaits.session_le
            have hsession'' : s'.session = r.session := hspares.session.symm.trans hsession'
            omega
        refine ⟨rfl, ?_, fun _ => ?_⟩
        · have hs' : FramesInOrder fs { r with client := s' } :=
            h.inOrder.of_calls rfl
              (hmisused.trans (hlive.trans h.inOrder.defined.symm)) hhandled hcalls
          exact hs'.spares hspares
        · obtain ⟨frames, hframes, honclose⟩ := hspares.stack
          refine hawaits.next ⟨frames, hstack ▸ hframes, honclose⟩ (hcalls ▸ hspares.calls_prefix)
            (hspares.handled.trans hhandled) ?_ (fun hopenedParser => ?_)
            (fun hopened => absurd (hspares.state hopened) hnot) (fun hyes => absurd hyes hover)
            fun hyes _ => absurd (hyes.symm.trans hdead) nofun
          · refine (hawaits.session_le.trans ?_).trans hspares.session.ge
            rcases hsession with ⟨-, hold, -⟩ | hnew
            · exact hold.ge
            · exact hnew ▸ Nat.le_succ _
          · rcases hspares.parser with hsame | ⟨hnew, -⟩
            · have hboth := hparser.trans hsame
              exact ⟨hboth.parser.symm.trans hopenedParser, hboth.onMessage⟩
            · rcases hsession with ⟨hsame, -, -⟩ | hnext
              · rw [hsame] at hopenedParser ⊢
                exact ⟨hparser.parser.symm.trans hopenedParser, hparser.onMessage⟩
              · have hle := hawaits.session_le
                have hparser' : s'.session = r.session := hnew.symm.trans hopenedParser
                omega

theorem idle_connected (hidle : r.client.idle = true)
    (hhere : r.client.session = r.session ∨ r.client.stack ≠ []) : r.connected = true := by
  simp only [WebSocketClient.idle, Bool.and_eq_true, List.isEmpty_iff, Bool.not_eq_true'] at hidle
  exact connected_iff.mpr ⟨hhere.resolve_right (not_not.mpr hidle.1.1), hidle.2⟩

theorem receives_send (h : Receives fs r) (hstuck : r.client.stuck = false) (msg : Bytes)
    (opcode : UInt8) (mask : MaskKey) (w : WriteResult) (now : ℕ) :
    Receives fs { r with client := r.client.send msg opcode mask w now } := by
  have hspares := Spares.send r.client msg opcode mask w now
  have hawaits := h.awaits hstuck
  cases hconnected : r.connected with
  | true =>
      exact h.fate hstuck hconnected hspares
        (fate_send (hawaits.alive hconnected).close_cb msg opcode mask w now)
  | false =>
      have hstate : r.client.m_wsState ≠ .opened := by
        intro hopened
        rw [hawaits.opened hopened] at hconnected
        cases hconnected
      rw [WebSocketClient.send, if_pos hstate]
      exact h

theorem receives_close (h : Receives fs r) (hstuck : r.client.stuck = false) :
    Receives fs { r with client := r.client.close } := by
  have hspares := Spares.close r.client
  have hawaits := h.awaits hstuck
  cases hconnected : r.connected with
  | true =>
      exact h.fate hstuck hconnected hspares
        (fate_close (hawaits.alive hconnected).close_cb (hawaits.alive hconnected).channel)
  | false =>
      by_cases hstuck' : r.client.close.stuck = true
      · refine ⟨h.inOrder.spares hspares, fun hno => ?_⟩
        rw [show r.client.close.stuck = false from hno] at hstuck'
        cases hstuck'
      · have hnot : r.client.session = r.session → r.client.conn.io.closed = true := by
          intro hsession
          by_contra hopen
          rw [connected_iff.mpr ⟨hsession, (Bool.not_eq_true _).mp hopen⟩] at hconnected
          cases hconnected
        have hgo : r.client.session = r.session → r.client.close = r.client.goOn .clientClose := by
          intro hsession
          revert hstuck'
          unfold WebSocketClient.close
          split_ifs
          · cases hmutex : r.client.conn.io.write_mutex with
            | true => exact fun hno => absurd (ioClose_stuck hmutex .clientClose) hno
            | false => exact fun _ => ioClose_goOn (hnot hsession) hmutex .clientClose
          · exact fun _ => rfl
        refine h.lost hstuck hconnected hspares (fun hsession => ?_) fun hsession => ?_
        · rw [hgo hsession]
          exact (goOn_closed r.client .clientClose).trans (hnot hsession)
        · rw [hgo hsession]
          exact goOn_sameParser r.client .clientClose

theorem Receives.step {a : ReceiveAction} (h : Receives fs r) (hstep : r.step lib a = some r') :
    DeliveryGuard r a ∧ Receives fs r' ∨ ¬ DeliveryGuard r a ∧ ¬ Delivers fs r' := by
  cases a with
  | recv size =>
      simp only [Receiving.step, Option.ite_none_right_eq_some, Option.map_eq_some_iff] at hstep
      obtain ⟨hsession, t, hclient, rfl⟩ := hstep
      obtain ⟨hstuck, -, hstepped⟩ := stepped_of_step hclient
      cases hstepped with
      | recv hreadable hdata => exact receives_recv h hstuck hsession hreadable hdata
  | client a =>
      have hclient : (r.client.session = r.session ∨ r.client.stack ≠ []) ∧
          ∃ t, r.client.step lib a = some t ∧ r' = { r with client := t } ∧
            ∀ data, a ≠ .recv data := by
        cases a with
        | recv data => cases hstep
        | _ =>
            simp only [Receiving.step, Option.ite_none_right_eq_some, Option.map_eq_some_iff]
              at hstep
            obtain ⟨hhere, t, hclient, rfl⟩ := hstep
            exact ⟨hhere, t, hclient, rfl, by simp⟩
      obtain ⟨hhere, t, hclient, rfl, hrecv⟩ := hclient
      obtain ⟨hstuck, -, hstepped⟩ := stepped_of_step hclient
      have halive := (h.awaits hstuck).alive
      cases hstepped with
      | «open» o => exact receives_open h hstuck o
      | send msg opcode mask w now =>
          exact .inl ⟨trivial, receives_send h hstuck msg opcode mask w now⟩
      | close => exact .inl ⟨trivial, receives_close h hstuck⟩
      | @ret frame rest hstack => exact receives_ret h hstuck hstack
      | connectReady w hwritable hconnect =>
          simp only [WebSocketClient.writable, Bool.and_eq_true] at hwritable
          rw [(halive (idle_connected hwritable.1 hhere)).connect] at hconnect
          cases hconnect
      | connectTimeout hidle _ =>
          have hconnected := idle_connected hidle hhere
          exact .inl ⟨trivial, h.fate hstuck hconnected (.ioClose r.client .nothing)
            (fate_ioClose (halive hconnected).close_cb .nothing nothing_ne_upgrading)⟩
      | @recv data _ _ => exact absurd rfl (hrecv data)
      | readEnds hreadable =>
          simp only [WebSocketClient.readable, Bool.and_eq_true] at hreadable
          have hconnected := idle_connected hreadable.1.1 hhere
          exact .inl ⟨trivial, h.fate hstuck hconnected (.ioClose r.client .nothing)
            (fate_ioClose (halive hconnected).close_cb .nothing nothing_ne_upgrading)⟩
      | writeReady w now hwritable _ =>
          simp only [WebSocketClient.writable, Bool.and_eq_true] at hwritable
          have hconnected := idle_connected hwritable.1 hhere
          exact .inl ⟨trivial, h.fate hstuck hconnected (.ioWriteCb r.client w now)
            (fate_ioWriteCb (halive hconnected).close_cb w now)⟩

end Steps

/-- The client has just opened, with the first bytes of the frames behind the response. -/
theorem receives_start {fs : List WireFrame} {t : WebSocketClient σ} {rest wire : Bytes}
    (h : Upgraded t rest) (hbytes : rest ++ wire = fs.flatMap WireFrame.bytes) :
    Receives fs (.start t wire) := by
  have hhandled : (Receiving.start t wire).handled = [] :=
    List.filter_eq_nil_iff.mpr fun handled hmem =>
      not_imp_not.mpr of_decide_eq_true (h.handled handled hmem)
  have hmessages : (Receiving.start t wire).messages = [] := by
    refine List.filterMap_eq_nil_iff.mpr fun ⟨n, call⟩ hcall => ?_
    cases call with
    | onopen => rfl
    | onclose => rfl
    | onmessage m =>
        refine if_neg fun hsession => h.onmessage m ?_
        exact (show n = t.session from hsession) ▸ hcall
  have hconnected : (Receiving.start t wire).connected = true := connected_iff.mpr ⟨rfl, h.closed⟩
  refine ⟨⟨h.defined, by rw [hhandled]; rfl, ?_, by rw [hhandled, hmessages]; rfl, ?_⟩,
    fun _ => ⟨⟨.inl hconnected, fun _ => ⟨h.state, h.parser, h.lambdas, h.channel, h.close_cb,
      h.connect, h.onclose⟩, fun _ => hconnected, le_rfl⟩, [], [.onopen rest], rest, h.stack,
      nofun, fun _ => rfl, .onopen fun _ => h.buffer, by rw [hhandled]; exact hbytes⟩⟩
  · rw [hhandled]
    exact fun _ hmem => absurd hmem List.not_mem_nil
  · refine List.pairwise_of_forall_mem_list fun call hcall _ _ honclose => ?_
    rw [honclose] at hcall
    exact absurd hcall h.onclose

/-- From the moment a client opens, whatever frames the peer sends, however they arrive and
whatever the user does in the callbacks: a client delivers throughout a run exactly when each
step meets its guard. -/
theorem delivers_along_iff (lib : ClientLib σ) (fresh : Uninitialised) (loop : Loop)
    (run : List ClientAction) {s t : WebSocketClient σ} {data wire : Bytes} {fs : List WireFrame}
    (hrun : exec (WebSocketClient.step lib) (.new lib fresh loop) run = some s)
    (hupgrading : s.m_wsState = .upgrading) (hrecv : s.step lib (.recv data) = some t)
    (hopened : t.m_wsState = .opened)
    (hbytes : behindResponse t ++ wire = fs.flatMap WireFrame.bytes)
    (actions : List ReceiveAction) :
    Along (Receiving.step lib) (Delivers fs) (.start t wire) actions ↔
      Meets (Receiving.step lib) DeliveryGuard (.start t wire) actions := by
  have hprepared := prepared_exec hrun (stepped_of_step hrecv).1
  obtain ⟨rest, hupgraded⟩ := hprepared.upgraded hupgrading hrecv hopened
  have hrest : behindResponse t = rest := by
    rw [behindResponse, hupgraded.stack]
  exact along_iff_meets (fun _ h => h.delivers)
    (fun _ _ _ h hg hstep => (h.step hstep).elim And.right fun hno => absurd hg hno.1)
    (fun _ _ _ h hstep ht => (h.step hstep).elim And.left fun hno => absurd ht hno.2)
    actions (receives_start hupgraded (hrest ▸ hbytes))

/-- A client that has sent its request. -/
def connectedClient : WebSocketClient Unit :=
  ((newClient []).open (switchingParser []) (plainOpen .connected)).2

/-- A client that has just opened. -/
def openedClient : WebSocketClient Unit :=
  connectedClient.onread (switchingParser []) (switchingProtocols [])

theorem connectedClient_recv :
    connectedClient.step (switchingParser []) (.recv (switchingProtocols [])) =
      some openedClient := by
  have hgoes : (connectedClient.stuck || connectedClient.misused) = false := by decide +kernel
  have hreadable : connectedClient.readable = true := by decide +kernel
  simp only [WebSocketClient.step, hgoes, hreadable, Bool.false_eq_true, if_false, Bool.true_and,
    openedClient]
  rfl

/-- A TEXT frame. -/
def serverText : WireFrame where
  b₀ := 0x81
  b₁ := 0x02
  extended := []
  mask := fun _ => 0
  data := ascii "hi"
  declares := by decide
  fits := by decide

/-- A PING frame. -/
def serverPing : WireFrame where
  b₀ := 0x89
  b₁ := 0x00
  extended := []
  mask := fun _ => 0
  data := []
  declares := by decide
  fits := by decide

theorem delivers_along_text_frame :
    Along (Receiving.step (switchingParser [])) (Delivers [serverText])
        (.start openedClient serverText.bytes) [.client .ret, .recv 3, .recv 1] ↔
      Meets (Receiving.step (switchingParser [])) DeliveryGuard
        (.start openedClient serverText.bytes) [.client .ret, .recv 3, .recv 1] :=
  delivers_along_iff (switchingParser []) .zeroed _ [.open (plainOpen .connected)] rfl
    (by decide +kernel) connectedClient_recv (by decide +kernel) (by decide +kernel) _

/-- A PING frame is handed to `onmessage`. -/
theorem not_delivers_ping :
    connectedClient.step (switchingParser []) (.recv (switchingProtocols [])) =
        some openedClient ∧
      ¬ Along (Receiving.step (switchingParser [])) (Delivers [serverPing])
        (.start openedClient serverPing.bytes) [.client .ret, .recv 2] := by
  refine ⟨connectedClient_recv, fun h => ?_⟩
  have hmessages : (exec (Receiving.step (switchingParser []))
      (.start openedClient serverPing.bytes) [.client .ret, .recv 2]).map Receiving.messages =
        some [⟨0x9, []⟩] := by
    decide +kernel
  obtain ⟨r, hr, hping⟩ := Option.map_eq_some_iff.mp hmessages
  have hcontrol := (h.exec hr).control ⟨0x9, []⟩ (by rw [hping]; exact List.mem_cons_self)
  cases hcontrol

end LibConn.Http
