import LibConn.Verification.Sessions.Segments
import LibConn.Verification.WebSocket.Wire

/-! # Fragmented messages

`onMessage` looks at one frame at a time: a TEXT or BINARY frame goes to the service as it
is, whether or not it is the last of its message, and a CONTINUE frame goes nowhere. -/

namespace LibConn.Http

open LibConn.Run
open LibConn.WebSocket (WsFrame)

variable {σ : Type}

/-- A message in fragments, with the PING and PONG frames that come before each but the
first. -/
structure FragmentedMessage where
  head : WsFrame
  rest : List (List WsFrame × WsFrame)
  begins : head.opcode = 0x1 ∨ head.opcode = 0x2
  continues : ∀ r ∈ rest, r.2.opcode = 0x0
  controls : ∀ r ∈ rest, ∀ c ∈ r.1, c.opcode = 0x9 ∨ c.opcode = 0xA
  ends : (head :: rest.map Prod.snd).map WsFrame.fin = List.replicate rest.length false ++ [true]

namespace FragmentedMessage

def opcode (m : FragmentedMessage) : UInt8 :=
  UInt8.ofNat m.head.opcode

def payload (m : FragmentedMessage) : Bytes :=
  m.head.data ++ m.rest.flatMap fun r => r.2.data

/-- The frames in the order of the wire. -/
def frames (m : FragmentedMessage) : List WsFrame :=
  m.head :: m.rest.flatMap fun r => r.1 ++ [r.2]

def pings (m : FragmentedMessage) : List WsFrame :=
  m.rest.flatMap fun r => r.1.filter fun c => c.opcode = 0x9

end FragmentedMessage

/-- From `s` to `t` the service has had the message once and in one piece, and every PING its
PONG. -/
structure Reassembled (s t : Session σ) (m : FragmentedMessage) : Prop where
  calls : t.calls = s.calls ++ [.onmessage true m.payload m.opcode]
  written : byHandle t.written = byHandle s.written ++ m.pings.map fun p => pong p.data

/-! ## What the frames call for -/

section Frames

variable {f : WsFrame} {m : FragmentedMessage}

theorem opcode_eq_iff (opcode : Fin 16) (code : Fin 16) :
    (UInt8.ofNat opcode = UInt8.ofNat code) ↔ opcode = code := by
  revert opcode code
  decide

theorem serviceCalls_data (h : f.opcode = 0x1 ∨ f.opcode = 0x2) :
    serviceCalls f.message = [.onmessage true f.data (UInt8.ofNat f.opcode)] := by
  apply if_pos
  rcases h with h | h
  · exact .inl ((opcode_eq_iff f.opcode 0x1).mpr h)
  · exact .inr ((opcode_eq_iff f.opcode 0x2).mpr h)

theorem serviceCalls_other (h1 : f.opcode ≠ 0x1) (h2 : f.opcode ≠ 0x2) :
    serviceCalls f.message = [] := by
  apply if_neg
  rintro (h | h)
  · exact h1 ((opcode_eq_iff f.opcode 0x1).mp h)
  · exact h2 ((opcode_eq_iff f.opcode 0x2).mp h)

theorem pongs_message (f : WsFrame) :
    pongs f.message = if f.opcode = 0x9 then [pong []] else [] := by
  rw [pongs]
  exact if_congr (opcode_eq_iff f.opcode 0x9) rfl rfl

theorem FragmentedMessage.mem_frames (m : FragmentedMessage) {f : WsFrame} (hf : f ∈ m.frames) :
    f.opcode ≠ 0x8 := by
  rcases List.mem_cons.mp hf with rfl | hf
  · rcases m.begins with h | h <;> rw [h] <;> decide
  · obtain ⟨r, hr, hf⟩ := List.mem_flatMap.mp hf
    rcases List.mem_append.mp hf with hf | hf
    · rcases m.controls r hr f hf with h | h <;> rw [h] <;> decide
    · rw [List.mem_singleton.mp hf, m.continues r hr]
      decide

/-- Only the first fragment reaches the service. -/
theorem FragmentedMessage.calls (m : FragmentedMessage) :
    (m.frames.map WsFrame.message).flatMap serviceCalls =
      [.onmessage true m.head.data m.opcode] := by
  have hrest : ((m.rest.flatMap fun r => r.1 ++ [r.2]).map WsFrame.message).flatMap
      serviceCalls = [] := by
    rw [List.flatMap_map]
    apply List.flatMap_eq_nil_iff.mpr
    intro f hf
    obtain ⟨r, hr, hf⟩ := List.mem_flatMap.mp hf
    rcases List.mem_append.mp hf with hf | hf
    · rcases m.controls r hr f hf with h | h <;>
        exact serviceCalls_other (by rw [h]; decide) (by rw [h]; decide)
    · obtain rfl := List.mem_singleton.mp hf
      have h := m.continues r hr
      exact serviceCalls_other (by rw [h]; decide) (by rw [h]; decide)
  rw [FragmentedMessage.frames, List.map_cons, List.flatMap_cons, hrest, List.append_nil]
  exact serviceCalls_data m.begins

theorem FragmentedMessage.filter_frames (m : FragmentedMessage) :
    (m.frames.filter fun f => f.opcode = 0x9) = m.pings := by
  have hhead : ¬ m.head.opcode = 0x9 := by
    rcases m.begins with h | h <;> rw [h] <;> decide
  rw [FragmentedMessage.frames, List.filter_cons_of_neg (by simpa using hhead), List.filter_flatMap]
  apply List.flatMap_congr
  intro r hr
  have hlast : ¬ r.2.opcode = 0x9 := by
    rw [m.continues r hr]
    decide
  rw [List.filter_append, List.filter_singleton, decide_eq_false hlast]
  exact List.append_nil _

/-- Every PING is answered, with nothing in it. -/
theorem FragmentedMessage.pongs (m : FragmentedMessage) :
    (m.frames.map WsFrame.message).flatMap Http.pongs = m.pings.map fun _ => pong [] := by
  rw [← m.filter_frames]
  induction m.frames with
  | nil => rfl
  | cons f frames ih =>
      rw [List.map_cons, List.flatMap_cons, ih, pongs_message]
      by_cases h : f.opcode = 0x9
      · rw [if_pos h, List.filter_cons_of_pos (by simpa using h)]
        rfl
      · rw [if_neg h, List.filter_cons_of_neg (by simpa using h)]
        rfl

theorem pong_inj {data data' : Bytes} (h : data.length < 2 ^ 32) (h' : data'.length < 2 ^ 32) :
    pong data = pong data' ↔ data = data' := by
  refine ⟨fun hpong => ?_, congrArg pong⟩
  have hpeel := WebSocket.peel_buildWsFrame data (fun _ => 0) false 0xA true [] h
  have hpeel' := WebSocket.peel_buildWsFrame data' (fun _ => 0) false 0xA true [] h'
  have hsame := congrArg (fun frame => WebSocket.peel (frame ++ [])) hpong
  obtain ⟨hmessage, -⟩ := Peeling.Outcome.item.inj (hpeel.symm.trans (hsame.trans hpeel'))
  exact (WebSocket.Message.mk.inj hmessage).2

theorem FragmentedMessage.payload_eq_head (m : FragmentedMessage) :
    m.payload = m.head.data ↔ ∀ r ∈ m.rest, r.2.data = [] := by
  rw [FragmentedMessage.payload, List.append_right_eq_self, List.flatMap_eq_nil_iff]

end Frames

/-! ## Reassembly -/

/-- A fragmented message reaches the service whole, and each PING among its fragments is
answered with its payload, exactly when all fragments but the first and all the PINGs are
empty. -/
theorem reassembled_iff (lib : Externals σ) (world : Session σ → Answer)
    (calm : ∀ s, (world s).Calm) (s : Session σ) (h : Talking s [])
    (hbuffer : s.handle.m_wsBuffer = []) (m : FragmentedMessage) (segments : List Bytes)
    (hsegments : segments.flatten = m.frames.flatMap WsFrame.encode) :
    (∃ t, exec (Session.deliver lib world) s segments = some t ∧ Reassembled s t m) ↔
      (∀ r ∈ m.rest, r.2.data = []) ∧ ∀ p ∈ m.pings, p.data = [] := by
  have hfeeds := WsFrame.feeds hsegments
  rw [← hbuffer] at hfeeds
  have hclose : ∀ message ∈ m.frames.map WsFrame.message, message.opcode ≠ 0x8 := by
    intro message hmessage
    obtain ⟨f, hf, rfl⟩ := List.mem_map.mp hmessage
    exact fun h8 => m.mem_frames hf ((opcode_eq_iff f.opcode 0x8).mp h8)
  obtain ⟨t, hexec, -, -, hheard⟩ := h.feeds lib calm hfeeds hclose
  have hcalls := hheard.calls
  have hwritten := hheard.written
  rw [m.calls] at hcalls
  rw [m.pongs] at hwritten
  have hpings : (m.pings.map fun p => pong p.data) = (m.pings.map fun _ => pong []) ↔
      ∀ p ∈ m.pings, p.data = [] := by
    rw [List.map_inj_left]
    exact forall₂_congr fun p _ => pong_inj p.data_length_lt (by decide)
  rw [← m.payload_eq_head, ← hpings]
  constructor
  · rintro ⟨t', hexec', hcalls', hwritten'⟩
    obtain rfl : t = t' := Option.some.inj (hexec.symm.trans hexec')
    rw [hcalls, List.append_cancel_left_eq] at hcalls'
    rw [hwritten, List.append_cancel_left_eq] at hwritten'
    exact ⟨(ServiceCall.onmessage.inj (List.cons.inj hcalls').1).2.1.symm, hwritten'.symm⟩
  · rintro ⟨hpayload, hpongs⟩
    exact ⟨t, hexec, by rw [hcalls, hpayload], by rw [hwritten, hpongs]⟩

/-- A session right after the upgrade. -/
def talkingStart : Session Unit :=
  { upgradeStart with
    handle := upgradeStart.handle.switched upgradeParser
    m_wsChannel := true
    calls := [.onopen true] }

theorem talking_talkingStart : Talking talkingStart [] :=
  ⟨rfl, rfl, rfl, rfl, rfl, rfl, rfl⟩

/-- The text `hi` with an empty fragment behind it and a PING between the two. -/
def emptyTail : FragmentedMessage where
  head := ⟨1, false, none, [0x68, 0x69], by decide⟩
  rest := [([⟨9, true, none, [], by decide⟩], ⟨0, true, none, [], by decide⟩)]
  begins := .inl rfl
  continues := by simp
  controls := by simp
  ends := rfl

/-- The text `hi` in two fragments. -/
def twoFragments : FragmentedMessage where
  head := ⟨1, false, none, [0x68], by decide⟩
  rest := [([], ⟨0, true, none, [0x69], by decide⟩)]
  begins := .inl rfl
  continues := by simp
  controls := by simp
  ends := rfl

theorem reassembled_iff_emptyTail :
    (∃ t, exec (Session.deliver upgradeParser fun _ => .ok) talkingStart
        [emptyTail.frames.flatMap WsFrame.encode] = some t ∧
      Reassembled talkingStart t emptyTail) ↔
      (∀ r ∈ emptyTail.rest, r.2.data = []) ∧ ∀ p ∈ emptyTail.pings, p.data = [] :=
  reassembled_iff upgradeParser (fun _ => .ok) (fun _ => calm_ok) talkingStart
    talking_talkingStart rfl emptyTail _ (List.append_nil _)

/-- The second fragment is dropped. -/
theorem not_reassembled_twoFragments :
    ¬ ∃ t, exec (Session.deliver upgradeParser fun _ => .ok) talkingStart
      [twoFragments.frames.flatMap WsFrame.encode] = some t ∧
      Reassembled talkingStart t twoFragments := by
  rintro ⟨t, hexec, hcalls, -⟩
  have hfirst : (exec (Session.deliver upgradeParser fun _ => .ok) talkingStart
      [twoFragments.frames.flatMap WsFrame.encode]).map Session.calls =
        some [.onopen true, .onmessage true [0x68] 0x1] := rfl
  rw [hexec, Option.map_some, Option.some.injEq] at hfirst
  rw [hfirst] at hcalls
  revert hcalls
  decide

end LibConn.Http
