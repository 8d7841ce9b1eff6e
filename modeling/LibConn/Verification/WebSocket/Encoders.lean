import LibConn.Model.FrameBuffers
import LibConn.Verification.Io.Stream
import LibConn.Verification.WebSocket.Encoding

/-! # Encoders in memory

Both encoders write the bytes of the frame one after the other from the start of the buffer; the
one of the client has cleared the whole of it before. -/

namespace LibConn.WebSocket

open LibConn.Memory
open LibConn.Bytes (leBytes)

variable {out frame : Block UInt8} {data head : List UInt8} {mask : MaskKey} {has_mask : Bool}

theorem range_map_applyMask (data : List UInt8) (mask : MaskKey) :
    (List.range data.length).map (fun i => data.getD i 0 ^^^ mask.byteAt i) =
      applyMask mask data := by
  apply List.ext_getElem (by simp)
  intro i hi _
  have hdata : i < data.length := by simpa using hi
  simp [applyMask, MaskKey.byteAt, hdata]

/-! ## The server's encoder -/

/-- The mask and the payload behind the header. -/
def payloadBytes (data : List UInt8) (mask : MaskKey) (has_mask : Bool) : List UInt8 :=
  if has_mask then mask.bytes ++ applyMask mask data else data

theorem payload_holds {frame_len : ℕ} (h : out.Holds frame head) (hlen : frame_len = head.length)
    (data : List UInt8) (mask : MaskKey) (has_mask : Bool) :
    out.Holds
        (if has_mask then
          (List.range data.length).foldl (fun frame i =>
            frame.store (frame_len + 4 + i) [data.getD i 0 ^^^ mask.byteAt i])
              (frame.store frame_len mask.bytes)
        else frame.store frame_len data)
        (head ++ payloadBytes data mask has_mask) := by
  cases has_mask with
  | false => exact h.store hlen data
  | true =>
      have hmask := h.store hlen mask.bytes
      have hstart : frame_len + 4 = (head ++ mask.bytes).length := by simp [hlen]
      have hloop := hmask.foldl hstart
        (fun i => data.getD i 0 ^^^ mask.byteAt i) data.length
      rw [range_map_applyMask, List.append_assoc] at hloop
      exact hloop

/-- `build_ws_frame` writes its frame and nothing else. -/
theorem buildWsFrameInto_holds (out : Block UInt8) (data : List UInt8) (mask : MaskKey)
    (has_mask : Bool) (opcode : UInt8) (fin : Bool) :
    out.Holds (buildWsFrameInto out data mask has_mask opcode fin).2
      (buildWsFrame data mask has_mask opcode fin) := by
  have hfirst := (Block.Holds.refl out).store rfl
    [(if fin then 0x80 else 0x00) ||| (opcode &&& 0x0F)]
  by_cases hshort : data.length < 126
  · have hhead := hfirst.store rfl
      [(if has_mask then 0x80 else 0x00) ||| UInt8.ofNat (data.length &&& 0x7F)]
    have h := payload_holds hhead rfl data mask has_mask
    rw [buildWsFrameInto, buildWsFrame]
    simp only [if_pos hshort]
    cases has_mask with
    | false => exact h
    | true => exact h
  · by_cases hmid : data.length ≤ 65535
    · have h₁ := hfirst.store rfl [(if has_mask then 0x80 else 0x00) ||| 0x7E]
      have h₂ := h₁.store rfl [UInt8.ofNat ((data.length >>> 8) &&& 0xFF)]
      have h₃ := h₂.store rfl [UInt8.ofNat (data.length &&& 0xFF)]
      have h := payload_holds h₃ rfl data mask has_mask
      rw [buildWsFrameInto, buildWsFrame]
      simp only [if_neg hshort, if_pos hmid]
      cases has_mask with
      | false => exact h
      | true => exact h
    · have h₁ := hfirst.store (show 1 = _ from rfl) [(if has_mask then 0x80 else 0x00) ||| 0x7F]
      have h₂ := h₁.store (show 2 = _ from rfl) [0]
      have h₃ := h₂.store (show 3 = _ from rfl) [UInt8.ofNat ((data.length >>> 56) &&& 0xFF)]
      have h₄ := h₃.store (show 4 = _ from rfl) [UInt8.ofNat ((data.length >>> 48) &&& 0xFF)]
      have h₅ := h₄.store (show 5 = _ from rfl) [UInt8.ofNat ((data.length >>> 40) &&& 0xFF)]
      have h₆ := h₅.store (show 6 = _ from rfl) [UInt8.ofNat ((data.length >>> 24) &&& 0xFF)]
      have h₇ := h₆.store (show 7 = _ from rfl) [UInt8.ofNat ((data.length >>> 16) &&& 0xFF)]
      have h₈ := h₇.store (show 8 = _ from rfl) [UInt8.ofNat ((data.length >>> 8) &&& 0xFF)]
      have h₉ := h₈.store (show 9 = _ from rfl) [UInt8.ofNat (data.length &&& 0xFF)]
      have h := payload_holds h₉ (show 10 = _ from rfl) data mask has_mask
      rw [buildWsFrameInto, buildWsFrame]
      simp only [if_neg hshort, if_neg hmid]
      cases has_mask with
      | false =>
          simp only [payloadBytes, Bool.false_eq_true, if_false, List.nil_append, List.cons_append,
            Nat.zero_add, Nat.reduceAdd] at h ⊢
          exact h
      | true =>
          simp only [payloadBytes, if_true, List.nil_append, List.cons_append, Nat.zero_add,
            Nat.reduceAdd] at h ⊢
          exact h

/-! ## Sizes -/

/-- The length of a frame. -/
def frameLength (data_len : ℕ) (has_mask : Bool) : ℕ :=
  (if data_len < 126 then 2 else if data_len ≤ 65535 then 4 else 10) +
    (if has_mask then 4 else 0) + data_len

@[simp] theorem buildWsFrame_length (data : List UInt8) (mask : MaskKey) (has_mask : Bool)
    (opcode : UInt8) (fin : Bool) :
    (buildWsFrame data mask has_mask opcode fin).length = frameLength data.length has_mask := by
  have hpayload : (if has_mask then mask.bytes ++ applyMask mask data else data).length =
      (if has_mask then 4 else 0) + data.length := by
    cases has_mask <;> simp
  rw [buildWsFrame, List.length_append, List.length_append, hpayload, frameLength]
  split_ifs <;> simp <;> omega

theorem wsCalcFrameSize_eq (data_len : ℕ) (has_mask : Bool) :
    wsCalcFrameSize data_len has_mask = int32 (frameLength data_len has_mask : ℕ) := by
  have hshort : ((data_len : ℤ) < 126) ↔ data_len < 126 := by omega
  have hmid : ((data_len : ℤ) ≤ 65535) ↔ data_len ≤ 65535 := by omega
  rw [wsCalcFrameSize, frameLength]
  simp only [hshort, hmid]
  congr 1
  split_ifs <;> push_cast <;> ring

theorem buildWsFrameInto_fst (out : Block UInt8) (data : List UInt8) (mask : MaskKey)
    (has_mask : Bool) (opcode : UInt8) (fin : Bool) :
    (buildWsFrameInto out data mask has_mask opcode fin).1 =
      wsCalcFrameSize data.length has_mask := by
  rw [wsCalcFrameSize_eq, buildWsFrameInto, frameLength]
  by_cases hshort : data.length < 126
  · cases has_mask <;> simp [hshort]
  · by_cases hmid : data.length ≤ 65535 <;> cases has_mask <;> simp [hshort, hmid]

/-! ## The client's encoder -/

theorem masked_holds {offset : ℕ} (h : out.Holds frame head) (hoffset : offset = head.length)
    (data : List UInt8) (mask : MaskKey) :
    out.Holds
        ((List.range data.length).foldl (fun buffer i =>
          buffer.store (offset + 4 + i) [data.getD i 0 ^^^ mask.byteAt i])
            (frame.store offset mask.bytes))
        (head ++ mask.bytes ++ applyMask mask data) ∧
      offset + 4 + data.length = (head ++ mask.bytes ++ applyMask mask data).length := by
  have hpayload := payload_holds h hoffset data mask true
  have hbytes : head ++ payloadBytes data mask true = head ++ mask.bytes ++ applyMask mask data :=
    (List.append_assoc _ _ _).symm
  exact ⟨hbytes ▸ hpayload, by simp [hoffset, Nat.add_assoc]⟩

theorem buildFrameInto_holds {data : List UInt8} (h : data.length ≤ maxFrameSize)
    (m_sendBuffer : Block UInt8) (opcode : UInt8) (mask : MaskKey) :
    ∃ buffer, buildFrameInto m_sendBuffer data opcode mask =
        some (wsCalcFrameSize data.length true, buffer) ∧
      (m_sendBuffer.store 0 (List.replicate maxFrameSize 0)).Holds buffer
        (buildWsFrame data mask true opcode true) := by
  have hbuild := buildFrame_eq_some data opcode mask h
  have hlength := buildWsFrame_length data mask true opcode true
  rw [wsCalcFrameSize_eq, ← hlength]
  rw [buildFrame, if_neg (Nat.not_lt.mpr h)] at hbuild
  rw [buildFrameInto, if_neg (Nat.not_lt.mpr h)]
  dsimp only at hbuild ⊢
  generalize UInt8.ofNat (if data.length > 65535 then 127
    else if data.length > 125 then 126 else data.length) = code at hbuild ⊢
  have hheader := (Block.Holds.refl (m_sendBuffer.store 0 (List.replicate maxFrameSize 0))).store
    rfl (WsFrameHeader.mk opcode 0 1 code 1).bytes
  rw [← Option.some.inj hbuild]
  by_cases h126 : code = 126
  · have hlen := hheader.store (show 2 = _ from rfl) (wsNtoh (leBytes 2 data.length))
    obtain ⟨hholds, hsize⟩ := masked_holds hlen
      (show 4 = _ by rw [wsNtoh_leBytes_two]; rfl) data mask
    simp only [if_pos h126]
    exact ⟨_, congrArg (fun n : ℕ => some (int32 n, _)) hsize, hholds⟩
  · by_cases h127 : code = 127
    · have hlen := hheader.store (show 2 = _ from rfl) (wsNtoh (leBytes 8 data.length))
      obtain ⟨hholds, hsize⟩ := masked_holds hlen
        (show 10 = _ by rw [wsNtoh_leBytes_eight]; rfl) data mask
      simp only [if_neg h126, if_pos h127]
      exact ⟨_, congrArg (fun n : ℕ => some (int32 n, _)) hsize, hholds⟩
    · obtain ⟨hholds, hsize⟩ := masked_holds hheader (show 2 = _ from rfl) data mask
      simp only [if_neg h126, if_neg h127]
      exact ⟨_, congrArg (fun n : ℕ => some (int32 n, _)) hsize, hholds⟩

/-! ## Agreement -/

theorem wsCalcFrameSize_of_lt {data_len : ℕ} {has_mask : Bool}
    (h : frameLength data_len has_mask < 2 ^ 31) :
    wsCalcFrameSize data_len has_mask = frameLength data_len has_mask := by
  rw [wsCalcFrameSize_eq, int32_of_lt (by omega) (by omega)]

theorem frameLength_le (data_len : ℕ) (has_mask : Bool) :
    frameLength data_len has_mask ≤ data_len + 14 := by
  rw [frameLength]
  split_ifs <;> omega

/-- The client's encoder writes what the server's does for a final frame with a mask, and the
server's writes the bytes that `ws_calc_frame_size` counts, each of them and no others. -/
theorem encoders_agree :
    (∀ (m_sendBuffer out : Block UInt8) (data : List UInt8) (opcode : UInt8) (mask : MaskKey),
      data.length ≤ maxFrameSize - 14 →
        ∃ send_len buffer, buildFrameInto m_sendBuffer data opcode mask = some (send_len, buffer) ∧
          send_len = (buildWsFrameInto out data mask true opcode true).1 ∧
          ∀ i : ℕ, i < send_len →
            buffer.cells i = (buildWsFrameInto out data mask true opcode true).2.cells i) ∧
    ∀ (out : ℕ → UInt8) (data : List UInt8) (mask : MaskKey) (has_mask : Bool) (opcode : UInt8)
      (fin : Bool), frameLength data.length has_mask < 2 ^ 31 →
        (buildWsFrameInto ⟨out, []⟩ data mask has_mask opcode fin).1 =
            wsCalcFrameSize data.length has_mask ∧
          ∀ i : ℕ, i ∈ (buildWsFrameInto ⟨out, []⟩ data mask has_mask opcode fin).2.written ↔
            i < wsCalcFrameSize data.length has_mask := by
  constructor
  · intro m_sendBuffer out data opcode mask hlen
    have hmax : data.length ≤ maxFrameSize := hlen.trans (Nat.sub_le _ _)
    have hfits : frameLength data.length true < 2 ^ 31 := by
      have hle := frameLength_le data.length true
      rw [maxFrameSize] at hmax
      omega
    obtain ⟨buffer, hbuild, hclient⟩ := buildFrameInto_holds hmax m_sendBuffer opcode mask
    refine ⟨_, buffer, hbuild, (buildWsFrameInto_fst _ _ _ _ _ _).symm, fun i hi => ?_⟩
    rw [wsCalcFrameSize_of_lt hfits] at hi
    have hserver := buildWsFrameInto_holds out data mask true opcode true
    have hin : i < (buildWsFrame data mask true opcode true).length := by
      rw [buildWsFrame_length]
      exact_mod_cast hi
    rw [hclient.cells_eq hin, hserver.cells_eq hin]
  · intro out data mask has_mask opcode fin hfits
    refine ⟨buildWsFrameInto_fst _ _ _ _ _ _, fun i => ?_⟩
    rw [(buildWsFrameInto_holds ⟨out, []⟩ data mask has_mask opcode fin).written,
      buildWsFrame_length, List.nil_append, List.mem_range, wsCalcFrameSize_of_lt hfits]
    exact Nat.cast_lt.symm

/-- Both encoders make eight bytes of a masked text frame of two. -/
theorem encoders_agree_hi :
    (∃ buffer, buildFrameInto ⟨fun _ => 0, []⟩ [104, 105] 1 (fun _ => 7) = some (8, buffer)) ∧
      (buildWsFrameInto ⟨fun _ => 0, []⟩ [104, 105] (fun _ => 7) true 1 true).1 = 8 := by
  obtain ⟨send_len, buffer, hbuild, hlen, -⟩ := encoders_agree.1 ⟨fun _ => 0, []⟩
    ⟨fun _ => 0, []⟩ [104, 105] 1 (fun _ => 7) (by decide)
  have hserver := encoders_agree.2 (fun _ => 0) [104, 105] (fun _ => 7) true 1 true (by decide)
  exact ⟨⟨buffer, by rw [hbuild, hlen]; rfl⟩, hserver.1⟩

end LibConn.WebSocket
