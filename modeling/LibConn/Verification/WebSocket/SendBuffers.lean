import LibConn.Shared.Run
import LibConn.Verification.WebSocket.Encoders

/-! # Room for the frames

`buildFrame` compares the payload with the size of its buffer, not the frame; the channel grows
its buffer to a size that is computed in `int`. -/

namespace LibConn.WebSocket

open LibConn.Memory
open LibConn.Run

/-! ## The parser -/

/-- Nothing is written past the buffer. -/
structure InBuffer (s : SendBuffer) : Prop where
  written : ∀ i ∈ s.written, i < maxFrameSize
  sendLens : ∀ send_len ∈ s.sendLens, send_len ≤ maxFrameSize

/-- The header has room as well, or the payload is rejected. -/
def HeaderFits (_ : SendBuffer) (call : BuildCall) : Prop :=
  call.data.length ≤ maxFrameSize - 14 ∨ maxFrameSize < call.data.length

instance decidableHeaderFits (s : SendBuffer) (call : BuildCall) :
    Decidable (HeaderFits s call) :=
  inferInstanceAs (Decidable (_ ∨ _))

variable {s t : SendBuffer} {call : BuildCall}

theorem frameLength_le_iff {len : ℕ} (h : len ≤ maxFrameSize) :
    frameLength len true ≤ maxFrameSize ↔ len ≤ maxFrameSize - 14 := by
  have hmax : maxFrameSize = 4194304 := rfl
  rw [frameLength, if_pos rfl]
  split_ifs <;> omega

theorem SendBuffer.step_some (h : call.data.length ≤ maxFrameSize) (ht : s.step call = some t) :
    t.written = s.written ++ List.range maxFrameSize ++
        List.range (frameLength call.data.length true) ∧
      t.sendLens = s.sendLens ++ [(frameLength call.data.length true : ℤ)] := by
  have hfits : frameLength call.data.length true < 2 ^ 31 := by
    have hle := frameLength_le call.data.length true
    rw [maxFrameSize] at h
    omega
  obtain ⟨buffer, hbuild, hholds⟩ := buildFrameInto_holds h
    ⟨s.m_sendBuffer.getD call.malloced, s.written⟩ call.opcode call.mask
  rw [SendBuffer.step, hbuild] at ht
  obtain rfl := Option.some.inj ht
  have hwritten := hholds.written
  rw [buildWsFrame_length] at hwritten
  refine ⟨hwritten.trans ?_, ?_⟩
  · rw [Block.store, List.length_replicate, ← List.range_eq_range']
  · rw [wsCalcFrameSize_of_lt hfits]

theorem SendBuffer.step_rejected (h : maxFrameSize < call.data.length)
    (ht : s.step call = some t) : t = s := by
  have hbuild : buildFrameInto ⟨s.m_sendBuffer.getD call.malloced, s.written⟩ call.data
      call.opcode call.mask = none := if_pos h
  rw [SendBuffer.step, hbuild] at ht
  exact (Option.some.inj ht).symm

/-- A call stays in the buffer exactly where the header fits. -/
theorem InBuffer.step_iff (h : InBuffer s) (ht : s.step call = some t) :
    InBuffer t ↔ HeaderFits s call := by
  rcases Nat.lt_or_ge maxFrameSize call.data.length with hrejected | hle
  · obtain rfl := SendBuffer.step_rejected hrejected ht
    exact iff_of_true h (.inr hrejected)
  · obtain ⟨hwritten, hlens⟩ := SendBuffer.step_some hle ht
    have hfits : HeaderFits s call ↔ frameLength call.data.length true ≤ maxFrameSize := by
      rw [frameLength_le_iff hle]
      exact or_iff_left (Nat.not_lt.mpr hle)
    rw [hfits]
    constructor
    · intro ht
      have hlen := ht.sendLens _ (hlens ▸ List.mem_append_right _ (List.mem_singleton_self _))
      exact_mod_cast hlen
    · intro hlen
      refine ⟨fun i hi => ?_, fun send_len hsend => ?_⟩
      · rw [hwritten, List.append_assoc, List.mem_append, List.mem_append, List.mem_range,
          List.mem_range] at hi
        rcases hi with hi | hi | hi
        · exact h.written i hi
        · exact hi
        · exact hi.trans_le hlen
      · rw [hlens, List.mem_append, List.mem_singleton] at hsend
        rcases hsend with hsend | rfl
        · exact h.sendLens send_len hsend
        · exact_mod_cast hlen

/-- Calls of `buildFrame` stay in the buffer as long as the header fits behind the payload. -/
theorem inBuffer_iff (run : List BuildCall) :
    Along SendBuffer.step InBuffer .new run ↔ Meets SendBuffer.step HeaderFits .new run := by
  have hnew : InBuffer .new := ⟨List.forall_mem_nil _, List.forall_mem_nil _⟩
  exact along_iff_meets (fun _ h => h) (fun _ _ _ h hg ht => (h.step_iff ht).mpr hg)
    (fun _ _ _ h ht hP => (h.step_iff ht).mp hP) run hnew

theorem SendBuffer.step_available (s : SendBuffer) (call : BuildCall) :
    ∃ t, s.step call = some t := by
  rw [SendBuffer.step]
  cases buildFrameInto ⟨s.m_sendBuffer.getD call.malloced, s.written⟩ call.data call.opcode
    call.mask <;> exact ⟨_, rfl⟩

/-- Thirteen bytes are too few for the header of a long frame. -/
theorem not_inBuffer_thirteen :
    ¬ Along SendBuffer.step InBuffer .new
      [⟨List.replicate (maxFrameSize - 13) 0, 2, fun _ => 0, fun _ => 0⟩] := by
  intro h
  obtain ⟨t, ht⟩ := SendBuffer.step_available .new
    ⟨List.replicate (maxFrameSize - 13) 0, 2, fun _ => 0, fun _ => 0⟩
  have hfits := (h.start.step_iff ht).mp (h.2 t ht).start
  rw [HeaderFits, List.length_replicate] at hfits
  revert hfits
  decide

/-! ## The channel -/

/-- The frame of a message. -/
def Message.frame (m : Message) : List UInt8 :=
  buildWsFrame m.msg (fun _ => 0) false m.opcode true

/-- Each run of `build_ws_frame` has had room, each message was sent as its frame, and no call
waits for itself. -/
structure SendsFrames (c : WebSocketChannel) : Prop where
  room : ∀ build ∈ c.builds, build.frame ≤ build.m_bufLen ∧ build.frame ≤ build.allocated
  sent : c.sent = c.messages.map Message.frame
  free : c.stuck = false

/-- The overload with a pointer, for a frame that the buffer has room for, or for one of fewer
than `2 ^ 30` bytes where `realloc` has memory. -/
def SendFits (c : WebSocketChannel) : ChannelCall → Prop
  | .string _ _ => False
  | .pointer data _ _ realloc =>
      (frameLength data.length false : ℤ) ≤ c.m_bufLen ∨
        frameLength data.length false < 2 ^ 30 ∧ realloc.isSome = true

instance decidableSendFits (c : WebSocketChannel) (call : ChannelCall) :
    Decidable (SendFits c call) :=
  match call with
  | .string _ _ => .isFalse id
  | .pointer _ _ _ _ => inferInstanceAs (Decidable (_ ∨ _))

/-- What calls keep: the mutex is free, and `m_bufLen` is the size of the block. -/
structure Sending (c : WebSocketChannel) : Prop where
  sends : SendsFrames c
  mutex : c.m_mutex = false
  size : c.m_bufLen = c.allocated
  size_lt : c.m_bufLen < 2 ^ 31

variable {c d : WebSocketChannel} {call : ChannelCall} {data : List UInt8} {opcode : UInt8}
  {realloc : Option (ℕ → UInt8)}

/-- The channel when it has looked for room for the frame of `data`. -/
def WebSocketChannel.grown (c : WebSocketChannel) (data : List UInt8)
    (realloc : Option (ℕ → UInt8)) : WebSocketChannel :=
  c.grow (wsCalcFrameSize data.length false) realloc

theorem grown_keeps (c : WebSocketChannel) (data : List UInt8) (realloc : Option (ℕ → UInt8)) :
    (c.grown data realloc).builds = c.builds ∧ (c.grown data realloc).messages = c.messages ∧
      (c.grown data realloc).sent = c.sent ∧ (c.grown data realloc).stuck = c.stuck := by
  rw [WebSocketChannel.grown, WebSocketChannel.grow]
  split_ifs <;> exact ⟨rfl, rfl, rfl, rfl⟩

theorem grown_congr (data : List UInt8) (realloc : Option (ℕ → UInt8))
    (hbufLen : d.m_bufLen = c.m_bufLen) (hallocated : d.allocated = c.allocated) :
    (d.grown data realloc).m_bufLen = (c.grown data realloc).m_bufLen ∧
      (d.grown data realloc).allocated = (c.grown data realloc).allocated := by
  rw [WebSocketChannel.grown, WebSocketChannel.grown, WebSocketChannel.grow,
    WebSocketChannel.grow, hbufLen]
  by_cases hgrow : c.m_bufLen < wsCalcFrameSize data.length false
  · rw [if_pos hgrow, if_pos hgrow]
    exact ⟨rfl, rfl⟩
  · rw [if_neg hgrow, if_neg hgrow]
    exact ⟨hbufLen, hallocated⟩

/-- A call from `c` that returns leaves `d`: the frame was written into what the channel has
grown to, and sent where its length is an `int`. -/
structure Returned (c : WebSocketChannel) (data : List UInt8) (opcode : UInt8)
    (realloc : Option (ℕ → UInt8)) (d : WebSocketChannel) : Prop where
  bufLen : d.m_bufLen = (c.grown data realloc).m_bufLen
  allocated : d.allocated = (c.grown data realloc).allocated
  builds : d.builds = c.builds ++ [⟨(c.grown data realloc).m_bufLen,
    (c.grown data realloc).allocated, frameLength data.length false⟩]
  messages : d.messages = c.messages ++ [⟨opcode, data⟩]
  stuck : d.stuck = false
  mutex : d.m_mutex = false
  sent : frameLength data.length false < 2 ^ 31 →
    d.sent = c.sent ++ [Message.frame ⟨opcode, data⟩]

theorem sendFrame_eq (c : WebSocketChannel) (data : List UInt8) (opcode : UInt8)
    (realloc : Option (ℕ → UInt8)) :
    c.sendFrame data opcode true realloc =
      { c.grown data realloc with
        m_buf := (buildWsFrameInto ⟨(c.grown data realloc).m_buf, []⟩ data (fun _ => 0) false
          opcode true).2.cells
        builds := (c.grown data realloc).builds ++
          [⟨(c.grown data realloc).m_bufLen, (c.grown data realloc).allocated,
            (buildWsFrameInto ⟨(c.grown data realloc).m_buf, []⟩ data (fun _ => 0) false
              opcode true).2.written.length⟩]
        sent := (c.grown data realloc).sent ++
          [slice (buildWsFrameInto ⟨(c.grown data realloc).m_buf, []⟩ data (fun _ => 0) false
            opcode true).2.cells 0 (wsCalcFrameSize data.length false).toNat] } :=
  rfl

theorem WebSocketChannel.step_pointer (h : Sending c) {len_lt : data.length < 2 ^ 31}
    (hd : c.step (.pointer data len_lt opcode realloc) = some d) :
    Returned c data opcode realloc d := by
  rw [WebSocketChannel.step, if_neg (by simp [h.sends.free])] at hd
  obtain rfl := Option.some.inj hd
  rw [WebSocketChannel.sendPointer, if_neg (by simp [h.mutex]), sendFrame_eq]
  generalize hlocked : ({ c with
    messages := c.messages ++ [Message.mk opcode data]
    m_mutex := true } : WebSocketChannel) = locked
  have hbufLen : locked.m_bufLen = c.m_bufLen := hlocked ▸ rfl
  have hallocated : locked.allocated = c.allocated := hlocked ▸ rfl
  have hbuilds : locked.builds = c.builds := hlocked ▸ rfl
  have hmessages : locked.messages = c.messages ++ [⟨opcode, data⟩] := hlocked ▸ rfl
  have hsent : locked.sent = c.sent := hlocked ▸ rfl
  have hstuck : locked.stuck = false := by rw [← hlocked, ← h.sends.free]
  obtain ⟨hgrown, hgrown'⟩ := grown_congr data realloc hbufLen hallocated
  obtain ⟨hkeep₁, hkeep₂, hkeep₃, hkeep₄⟩ := grown_keeps locked data realloc
  have hholds := buildWsFrameInto_holds ⟨(locked.grown data realloc).m_buf, []⟩ data
    (fun _ => 0) false opcode true
  generalize locked.grown data realloc = grown at *
  generalize (buildWsFrameInto ⟨grown.m_buf, []⟩ data (fun _ => 0) false opcode true).2 =
    frame at hholds ⊢
  have hlength : frame.written.length = frameLength data.length false := by
    rw [hholds.written, List.nil_append, List.length_range, buildWsFrame_length]
  refine ⟨hgrown, hgrown', ?builds, hkeep₂.trans hmessages, hkeep₄.trans hstuck, rfl, ?sent⟩
  case builds =>
    dsimp only
    rw [hkeep₁, hbuilds, hgrown, hgrown', hlength]
  case sent =>
    intro hlt
    have hslice := hholds.slice
    rw [buildWsFrame_length] at hslice
    dsimp only
    rw [hkeep₃, hsent, wsCalcFrameSize_of_lt hlt, Int.toNat_natCast, hslice]
    rfl

theorem WebSocketChannel.step_string (h : Sending c) {msg : Payload}
    (hd : c.step (.string msg realloc) = some d) : d.stuck = true := by
  rw [WebSocketChannel.step, if_neg (by simp [h.sends.free])] at hd
  obtain rfl := Option.some.inj hd
  rfl

/-- There is room for the frame in what the channel grows to. -/
def Roomy (c : WebSocketChannel) (data : List UInt8) : Prop :=
  (frameLength data.length false : ℤ) ≤ c.m_bufLen ∧ frameLength data.length false ≤ c.allocated

theorem grown_double (hsmall : frameLength data.length false < 2 ^ 30)
    (hrealloc : realloc.isSome = true) (hgrow : c.m_bufLen < frameLength data.length false) :
    (c.grown data realloc).m_bufLen = (2 * frameLength data.length false : ℕ) ∧
      (c.grown data realloc).allocated = 2 * frameLength data.length false := by
  have hdouble : int32 ((frameLength data.length false : ℤ) * 2) =
      (2 * frameLength data.length false : ℕ) := by
    rw [int32_of_lt (by omega) (by omega)]
    omega
  rw [WebSocketChannel.grown, wsCalcFrameSize_of_lt (by omega), WebSocketChannel.grow,
    if_pos hgrow, hdouble]
  refine ⟨rfl, ?_⟩
  dsimp only
  rw [if_pos hrealloc, u64_of_lt (by omega)]

theorem grown_eq (hlt : c.m_bufLen < 2 ^ 31)
    (hroom : (frameLength data.length false : ℤ) ≤ c.m_bufLen) : c.grown data realloc = c := by
  rw [WebSocketChannel.grown, wsCalcFrameSize_of_lt (by omega), WebSocketChannel.grow,
    if_neg (not_lt.mpr hroom)]

theorem not_grown_roomy (h : Sending c) (hlen : data.length < 2 ^ 31)
    (hlarge : 2 ^ 30 ≤ frameLength data.length false)
    (hgrow : c.m_bufLen < frameLength data.length false) : ¬ Roomy (c.grown data realloc) data := by
  have hle := frameLength_le data.length false
  have hsize := h.size
  rintro ⟨hroom, -⟩
  revert hroom
  rw [imp_false, not_le, WebSocketChannel.grown, wsCalcFrameSize_eq, WebSocketChannel.grow]
  generalize frameLength data.length false = frame at *
  obtain ⟨hlow, hhigh, hmod⟩ := int32_bounds frame
  by_cases hwrapped : c.m_bufLen < int32 frame
  · rw [if_pos hwrapped]
    dsimp only
    obtain ⟨hlow', hhigh', hmod'⟩ := int32_bounds (int32 frame * 2)
    omega
  · -- a size that has wrapped does not grow the buffer
    rw [if_neg hwrapped]
    exact hgrow

/-- There is room for a frame exactly where `SendFits` says so. -/
theorem grown_roomy_iff (h : Sending c) (hlen : data.length < 2 ^ 31) :
    Roomy (c.grown data realloc) data ↔
      (frameLength data.length false : ℤ) ≤ c.m_bufLen ∨
        frameLength data.length false < 2 ^ 30 ∧ realloc.isSome = true := by
  have hsize := h.size
  rcases Int.lt_or_le c.m_bufLen (frameLength data.length false) with hgrow | hroom
  · rw [or_iff_right (not_le.mpr hgrow)]
    rcases Nat.lt_or_ge (frameLength data.length false) (2 ^ 30) with hsmall | hlarge
    · rw [and_iff_right hsmall]
      by_cases hrealloc : realloc.isSome = true
      · obtain ⟨hbufLen, hallocated⟩ := grown_double hsmall hrealloc hgrow
        refine iff_of_true ⟨?_, ?_⟩ hrealloc
        · rw [hbufLen]
          omega
        · rw [hallocated]
          omega
      · refine iff_of_false (fun hroomy => ?_) hrealloc
        have hnone := hroomy.2
        rw [WebSocketChannel.grown, wsCalcFrameSize_of_lt (by omega), WebSocketChannel.grow,
          if_pos hgrow] at hnone
        dsimp only at hnone
        rw [if_neg hrealloc] at hnone
        omega
    · exact iff_of_false (not_grown_roomy h hlen hlarge hgrow) fun hsmall => by omega
  · rw [grown_eq h.size_lt hroom]
    exact iff_of_true ⟨hroom, by omega⟩ (.inl hroom)

theorem grown_lt (h : Sending c) (hlen : data.length < 2 ^ 31)
    (hroomy : Roomy (c.grown data realloc) data) :
    (c.grown data realloc).m_bufLen = (c.grown data realloc).allocated ∧
      (c.grown data realloc).m_bufLen < 2 ^ 31 := by
  rcases Int.lt_or_le c.m_bufLen (frameLength data.length false) with hgrow | hroom
  · rcases (grown_roomy_iff h hlen).mp hroomy with hroom | ⟨hsmall, hrealloc⟩
    · omega
    · obtain ⟨hbufLen, hallocated⟩ := grown_double hsmall hrealloc hgrow
      rw [hbufLen, hallocated]
      omega
  · rw [grown_eq h.size_lt hroom]
    exact ⟨h.size, h.size_lt⟩

/-- A call sends its frame exactly where it has room and does not wait for itself. -/
theorem Sending.step_iff (h : Sending c) (hd : c.step call = some d) :
    SendsFrames d ↔ SendFits c call := by
  cases call with
  | string msg realloc =>
      refine iff_of_false (fun hsends => ?_) id
      have hstuck := WebSocketChannel.step_string h hd
      exact absurd (hsends.free.symm.trans hstuck) (by simp)
  | pointer data len_lt opcode realloc =>
      have hreturned := WebSocketChannel.step_pointer h hd
      rw [SendFits, ← grown_roomy_iff h len_lt]
      constructor
      · intro hsends
        have hlast := hsends.room ⟨(c.grown data realloc).m_bufLen,
          (c.grown data realloc).allocated, frameLength data.length false⟩
          (by simp [hreturned.builds])
        dsimp only at hlast
        exact hlast
      · intro hroomy
        have hlt := (grown_lt h len_lt hroomy).2
        refine ⟨fun build hbuild => ?_, ?_, hreturned.stuck⟩
        · rw [hreturned.builds, List.mem_append, List.mem_singleton] at hbuild
          rcases hbuild with hbuild | rfl
          · exact h.sends.room build hbuild
          · dsimp only
            exact hroomy
        · have hframe : frameLength data.length false < 2 ^ 31 := by
            have hle := hroomy.1
            omega
          rw [hreturned.sent hframe, h.sends.sent, hreturned.messages, List.map_append]
          rfl

theorem Sending.step (h : Sending c) (hg : SendFits c call) (hd : c.step call = some d) :
    Sending d := by
  have hsends := (h.step_iff hd).mpr hg
  cases call with
  | string msg realloc => exact absurd hg id
  | pointer data len_lt opcode realloc =>
      have hreturned := WebSocketChannel.step_pointer h hd
      obtain ⟨hsize, hlt⟩ := grown_lt h len_lt ((grown_roomy_iff h len_lt).mpr hg)
      rw [← hreturned.bufLen] at hsize hlt
      rw [← hreturned.allocated] at hsize
      exact ⟨hsends, hreturned.mutex, hsize, hlt⟩

theorem sending_new : Sending .new :=
  ⟨⟨List.forall_mem_nil _, rfl, rfl⟩, rfl, rfl, by decide⟩

/-- Calls of `send` send their frames as long as they go as `SendFits` says. -/
theorem sendsFrames_iff (run : List ChannelCall) :
    Along WebSocketChannel.step SendsFrames .new run ↔
      Meets WebSocketChannel.step SendFits .new run :=
  along_iff_meets (fun _ h => h.sends) (fun _ _ _ h hg hd => h.step hg hd)
    (fun _ _ _ h hd hP => (h.step_iff hd).mp hP) run sending_new

/-- The overload with a string takes the mutex, and then waits for it. -/
theorem not_sendsFrames_string :
    ¬ Along WebSocketChannel.step SendsFrames .new
      [.string ⟨[104, 105], by decide⟩ (some fun _ => 0)] := by
  intro h
  obtain ⟨d, hd⟩ : ∃ d, WebSocketChannel.new.step
      (.string ⟨[104, 105], by decide⟩ (some fun _ => 0)) = some d := ⟨_, rfl⟩
  exact (sending_new.step_iff hd).mp (h.2 d hd).start

end LibConn.WebSocket
