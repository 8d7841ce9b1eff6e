import LibConn.Verification.Sessions.LifeCycle

/-! # Segments on an upgraded connection

While nothing closes the connection, each segment is worked off to its last effect before the
next is received. What the session does is then a matter of the frames alone. -/

namespace LibConn.Http

open LibConn.Run
open LibConn.Peeling (Drains Feeds)

variable {σ : Type}

/-- The answer of a world in which writes succeed and the service leaves the connection
open. -/
structure Answer.Calm (answer : Answer) : Prop where
  keeps : answer.closes = false
  quiet : answer.Quiet

theorem calm_ok : Answer.ok.Calm :=
  ⟨rfl, fun _ hc => absurd hc List.not_mem_nil⟩

/-- The effects under way happen, each answered as `world` says. -/
def Session.finish (lib : Externals σ) (world : Session σ → Answer) :
    ℕ → Session σ → Option (Session σ)
  | 0, s => some s
  | n + 1, s => (s.step lib (.work (world s))).bind (Session.finish lib world n)

/-- A segment is received and all its effects happen. -/
def Session.deliver (lib : Externals σ) (world : Session σ → Answer) (s : Session σ)
    (data : Bytes) : Option (Session σ) :=
  (s.step lib (.recv data)).bind fun t => t.finish lib world t.todo.length

/-- The connection is upgraded, and `messages` wait for `onMessage`. -/
structure Talking (s : Session σ) (messages : List WebSocket.Message) : Prop where
  defined : s.misused = false
  isOpen : s.closed = false
  websocket : s.handle.m_serviceType = .websocket
  service : s.handle.m_wsService = true
  listens : s.handle.m_wsOnMessage = true
  channel : s.m_wsChannel = true
  todo : s.todo = messages.map .message

/-- What has happened from `s` to `t` is what `messages` call for. -/
structure Heard (s t : Session σ) (messages : List WebSocket.Message) : Prop where
  handled : t.handled = s.handled ++ messages
  calls : t.calls = s.calls ++ messages.flatMap serviceCalls
  written : byHandle t.written = byHandle s.written ++ messages.flatMap pongs

theorem Heard.refl (s : Session σ) : Heard s s [] :=
  ⟨(List.append_nil _).symm, (List.append_nil _).symm, (List.append_nil _).symm⟩

theorem Heard.trans {s t u : Session σ} {ms ns : List WebSocket.Message} (h : Heard s t ms)
    (h' : Heard t u ns) : Heard s u (ms ++ ns) := by
  refine ⟨?_, ?_, ?_⟩
  · rw [h'.handled, h.handled, List.append_assoc]
  · rw [h'.calls, h.calls, List.flatMap_append, List.append_assoc]
  · rw [h'.written, h.written, List.flatMap_append, List.append_assoc]

section Calm

variable {lib : Externals σ} {world : Session σ → Answer} (calm : ∀ s, (world s).Calm)
  {s : Session σ} {m : WebSocket.Message} {messages : List WebSocket.Message}

theorem step_recv_eq (defined : s.misused = false) (isOpen : s.closed = false) (idle : s.todo = [])
    {data : Bytes} {fed : Fed σ} (hfed : s.handle.feedRecvData lib data = some fed) :
    s.step lib (.recv data) =
      some (if fed.result ≠ (data.length : ℤ) then (s.received fed).close else s.received fed) := by
  have hidle : (s.closed || !s.todo.isEmpty) = false := by
    rw [isOpen, idle]
    rfl
  rw [Session.step, if_neg (by rw [defined]; exact Bool.false_ne_true)]
  simp only [hidle, Bool.false_eq_true, ite_false, hfed]
  rfl

theorem step_work_eq {answer : Answer} (defined : s.misused = false) {effect : Effect}
    {rest : List Effect} (htodo : s.todo = effect :: rest) :
    s.step lib (.work answer) = some ({ s with todo := rest }.perform answer effect) := by
  rw [Session.step, if_neg (by rw [defined]; exact Bool.false_ne_true)]
  simp only [htodo]

theorem Answer.Calm.keeps_message {answer : Answer} (h : answer.Calm) (service : ServiceType)
    (hclose : m.opcode ≠ 0x8) : Keeps service answer (.message m) :=
  ⟨fun _ => h.quiet, hclose, fun _ => h.keeps⟩

variable (lib)

theorem Talking.work {answer : Answer} (h : Talking s (m :: messages)) (hcalm : answer.Calm)
    (hclose : m.opcode ≠ 0x8) :
    ∃ t, s.step lib (.work answer) = some t ∧ Talking t messages ∧ t.handle = s.handle ∧
      Heard s t [m] := by
  obtain ⟨written, hwritten, hon⟩ := onMessage_keeps
    (s := { s with todo := messages.map .message }) h.isOpen h.service h.channel
    (hcalm.keeps_message _ hclose)
  refine ⟨_, step_work_eq h.defined h.todo, ?_⟩
  rw [Session.perform, hon, use_open (by exact h.isOpen)]
  refine ⟨?_, rfl, rfl, ?_, ?_⟩
  · exact ⟨h.defined, h.isOpen, h.websocket, h.service, h.listens, h.channel, rfl⟩
  · rw [List.flatMap_singleton]
  · rw [List.flatMap_singleton]
    exact hwritten

theorem step_of_misused (h : s.misused = true) (a : SessionAction) : s.step lib a = none := by
  cases a <;> exact if_pos h

/-- Nothing follows undefined behaviour. -/
theorem finish_of_misused (h : s.misused = true) {n : ℕ} {t : Session σ}
    (ht : s.finish lib world n = some t) : t.misused = true := by
  cases n with
  | zero =>
      obtain rfl := Option.some.inj ht
      exact h
  | succ n =>
      rw [Session.finish, step_of_misused lib h] at ht
      cases ht

theorem exec_of_misused (h : s.misused = true) {segments : List Bytes} {t : Session σ}
    (ht : exec (Session.deliver lib world) s segments = some t) : t.misused = true := by
  cases segments with
  | nil =>
      obtain rfl := Option.some.inj ht
      exact h
  | cons data segments =>
      rw [exec, Session.deliver, step_of_misused lib h] at ht
      cases ht

theorem Talking.work_close (h : Talking s (m :: messages)) (answer : Answer)
    (hclose : m.opcode = 0x8) :
    ∃ t, s.step lib (.work answer) = some t ∧ t.misused = true := by
  refine ⟨_, step_work_eq h.defined h.todo, ?_⟩
  have hclosed := onMessage_closes (s := { s with todo := messages.map .message }) h.service
    fun hkeeps : Keeps _ answer _ => hkeeps.2.1 hclose
  rw [Session.perform, Session.use, hclosed, Bool.or_true]

theorem Talking.recv (h : Talking s []) {data rest : Bytes}
    (hd : Drains WebSocket.peel (s.handle.m_wsBuffer ++ data) messages rest) :
    ∃ r, s.step lib (.recv data) = some r ∧ Talking r messages ∧
      r.handle = { s.handle with m_wsBuffer := rest } ∧ Heard s r [] := by
  have hfed := feedRecvData_drains lib data h.websocket h.listens hd
  refine ⟨_, (step_recv_eq h.defined h.isOpen h.todo hfed).trans
    (congrArg some (if_neg (not_not.mpr rfl))), ?_, rfl, ?_⟩
  · exact ⟨h.defined, h.isOpen, h.websocket, h.service, h.listens, h.channel, rfl⟩
  · exact ⟨(List.append_nil _).symm, (List.append_nil _).symm, (List.append_nil _).symm⟩

theorem Talking.todo_length (h : Talking s messages) : s.todo.length = messages.length := by
  rw [h.todo, List.length_map]

include calm

theorem Talking.finish (h : Talking s messages) (hclose : ∀ m ∈ messages, m.opcode ≠ 0x8) :
    ∃ t, s.finish lib world messages.length = some t ∧ Talking t [] ∧ t.handle = s.handle ∧
      Heard s t messages := by
  induction messages generalizing s with
  | nil => exact ⟨s, rfl, h, rfl, .refl s⟩
  | cons m messages ih =>
      obtain ⟨t, hstep, ht, hhandle, hheard⟩ :=
        h.work lib (calm s) (hclose m List.mem_cons_self)
      obtain ⟨u, hfinish, hu, hhandle', hheard'⟩ :=
        ih ht fun m' hm' => hclose m' (List.mem_cons_of_mem _ hm')
      refine ⟨u, ?_, hu, hhandle'.trans hhandle, hheard.trans hheard'⟩
      rw [List.length_cons, Session.finish, hstep]
      exact hfinish

theorem Talking.deliver (h : Talking s []) {data rest : Bytes}
    (hd : Drains WebSocket.peel (s.handle.m_wsBuffer ++ data) messages rest)
    (hclose : ∀ m ∈ messages, m.opcode ≠ 0x8) :
    ∃ t, s.deliver lib world data = some t ∧ Talking t [] ∧ t.handle.m_wsBuffer = rest ∧
      Heard s t messages := by
  obtain ⟨r, hrecv, hr, hbuffer, hkept⟩ := h.recv lib hd
  obtain ⟨t, hfinish, ht, hhandle, hheard⟩ := hr.finish lib calm hclose
  refine ⟨t, ?_, ht, by rw [hhandle, hbuffer], hkept.trans hheard⟩
  rw [Session.deliver, hrecv, Option.bind_some, hr.todo_length]
  exact hfinish

/-- However the frames are cut into segments. -/
theorem Talking.feeds (h : Talking s []) {segments : List Bytes} {rest : Bytes}
    (hf : Feeds WebSocket.peel s.handle.m_wsBuffer segments messages rest)
    (hclose : ∀ m ∈ messages, m.opcode ≠ 0x8) :
    ∃ t, exec (Session.deliver lib world) s segments = some t ∧ Talking t [] ∧
      t.handle.m_wsBuffer = rest ∧ Heard s t messages := by
  induction segments generalizing s messages with
  | nil =>
      cases hf
      exact ⟨s, rfl, h, rfl, .refl s⟩
  | cons data segments ih =>
      cases hf with
      | cons hd hrest =>
          obtain ⟨t, hdeliver, ht, rfl, hheard⟩ := h.deliver lib calm hd
            fun m hm => hclose m (List.mem_append_left _ hm)
          obtain ⟨u, hexec, hu, hbuffer, hheard'⟩ :=
            ih ht hrest fun m hm => hclose m (List.mem_append_right _ hm)
          refine ⟨u, ?_, hu, hbuffer, hheard.trans hheard'⟩
          rw [exec, hdeliver]
          exact hexec

theorem Talking.finish_close (h : Talking s messages) (hclose : ∃ m ∈ messages, m.opcode = 0x8)
    {t : Session σ} (ht : s.finish lib world messages.length = some t) : t.misused = true := by
  induction messages generalizing s with
  | nil =>
      obtain ⟨m, hm, -⟩ := hclose
      exact absurd hm List.not_mem_nil
  | cons m messages ih =>
      rw [List.length_cons, Session.finish] at ht
      by_cases h8 : m.opcode = 0x8
      · obtain ⟨u, hstep, hu⟩ := h.work_close lib (world s) h8
        rw [hstep] at ht
        exact finish_of_misused lib hu ht
      · obtain ⟨u, hstep, hu, -, -⟩ := h.work lib (calm s) h8
        rw [hstep] at ht
        obtain ⟨m', hm', hclose⟩ := hclose
        rcases List.mem_cons.mp hm' with rfl | hm'
        · exact absurd hclose h8
        · exact ih hu ⟨m', hm', hclose⟩ ht

/-- A stream with a CLOSE frame in it ends in undefined behaviour. -/
theorem Talking.feeds_close (h : Talking s []) {segments : List Bytes} {rest : Bytes}
    (hf : Feeds WebSocket.peel s.handle.m_wsBuffer segments messages rest)
    (hclose : ∃ m ∈ messages, m.opcode = 0x8) {t : Session σ}
    (ht : exec (Session.deliver lib world) s segments = some t) : t.misused = true := by
  induction segments generalizing s messages with
  | nil =>
      cases hf
      obtain ⟨m, hm, -⟩ := hclose
      exact absurd hm List.not_mem_nil
  | cons data segments ih =>
      cases hf with
      | @cons _ _ _ xs _ ys _ hd hrest =>
          by_cases hfirst : ∃ m ∈ xs, m.opcode = 0x8
          · obtain ⟨r, hrecv, hr, -, -⟩ := h.recv lib hd
            rw [exec, Session.deliver, hrecv, Option.bind_some, hr.todo_length] at ht
            obtain ⟨u, hfinish, hexec⟩ := Option.bind_eq_some_iff.mp ht
            exact exec_of_misused lib (hr.finish_close lib calm hfirst hfinish) hexec
          · push Not at hfirst
            obtain ⟨u, hdeliver, hu, rfl, -⟩ := h.deliver lib calm hd hfirst
            rw [exec, hdeliver, Option.bind_some] at ht
            obtain ⟨m, hm, h8⟩ := hclose
            rcases List.mem_append.mp hm with hm | hm
            · exact absurd h8 (hfirst m hm)
            · exact ih hu hrest ⟨m, hm, h8⟩ ht

end Calm

end LibConn.Http
