import LibConn.Verification.WebSocket.Decoding
import LibConn.Verification.WebSocket.Encoding

/-! # Encoded frames decode to themselves

A list of frames, encoded and concatenated, is handed over frame by frame, and nothing
is left in the buffer. -/

namespace LibConn.WebSocket

open LibConn.Bytes
open LibConn.Peeling

/-- The largest value of a C `int`. -/
def intMax : ℕ := 2 ^ 31 - 1

/-- A frame that `build_ws_frame` can encode: its length fits the `int` it returns. -/
structure WsFrame where
  opcode : Fin 16
  fin : Bool
  mask : Option MaskKey
  data : List UInt8
  fits : (buildWsFrame data (mask.getD fun _ => 0) mask.isSome
    (UInt8.ofNat opcode) fin).length ≤ intMax

def WsFrame.encode (f : WsFrame) : List UInt8 :=
  buildWsFrame f.data (f.mask.getD fun _ => 0) f.mask.isSome (UInt8.ofNat f.opcode) f.fin

def WsFrame.message (f : WsFrame) : Message :=
  ⟨UInt8.ofNat f.opcode, f.data⟩

/-- A frame within the payload size for which `buildFrame` has room in `m_sendBuffer`. -/
structure ClientFrame where
  opcode : Fin 16
  mask : MaskKey
  data : List UInt8
  fits : data.length ≤ maxFrameSize - 14

def ClientFrame.build (f : ClientFrame) : Option (List UInt8) :=
  buildFrame f.data (UInt8.ofNat f.opcode) f.mask

def ClientFrame.message (f : ClientFrame) : Message :=
  ⟨UInt8.ofNat f.opcode, f.data⟩

/-! ## One frame -/

theorem buildWsFrame_length_ge (data : List UInt8) (mask : MaskKey) (has_mask : Bool)
    (opcode : UInt8) (fin : Bool) :
    data.length ≤ (buildWsFrame data mask has_mask opcode fin).length := by
  rw [buildWsFrame]
  cases has_mask <;> simp <;> omega

theorem frameExtent_lengthBytes (fh : WsFrameHeader) (len : ℕ) (b₀ b₁ : UInt8)
    (rest : List UInt8) (hlen : len < 2 ^ 64)
    (hcode : fh.payload_len = UInt8.ofNat (lengthCode len)) :
    frameExtent fh (b₀ :: b₁ :: (lengthBytes len ++ rest)) =
      some (2 + (lengthBytes len).length, len) := by
  rw [lengthCode] at hcode
  rw [lengthBytes]
  by_cases hshort : len < 126
  · have hval : fh.payload_len.toNat = len := by
      rw [hcode, if_pos hshort]
      simp
      omega
    have hlt : fh.payload_len < 126 := by
      rw [UInt8.lt_iff_toNat_lt, hval]
      exact hshort
    simp [frameExtent, hlt, hval, hshort]
  · by_cases hmid : len ≤ 65535
    · have hpayload : fh.payload_len = 126 := by simpa [hshort, hmid] using hcode
      have hval : leNat (leBytes 2 len) = len := leNat_leBytes_of_lt (by omega)
      have htake : ((leBytes 2 len).reverse ++ rest).take 2 = (leBytes 2 len).reverse :=
        List.take_left' (by simp)
      simp [frameExtent, hpayload, hshort, hmid, htake, wsNtoh_reverse_leBytes_two, hval]
    · have hpayload : fh.payload_len = 127 := by simpa [hshort, hmid] using hcode
      have hval : leNat (leBytes 8 len) = len := leNat_leBytes_of_lt (by omega)
      have htake : ((leBytes 8 len).reverse ++ rest).take 8 = (leBytes 8 len).reverse :=
        List.take_left' (by simp)
      simp [frameExtent, hpayload, hshort, hmid, htake, wsNtoh_reverse_leBytes_eight, hval]

/-- What follows two header bytes: the payload, behind its mask if the header says so. -/
def Masked (b₀ b₁ : UInt8) (data body : List UInt8) : Prop :=
  (∃ mask : MaskKey, (WsFrameHeader.ofBytes b₀ b₁).mask ≠ 0 ∧
      body = mask.bytes ++ applyMask mask data) ∨
    ((WsFrameHeader.ofBytes b₀ b₁).mask = 0 ∧ body = data)

theorem peel_of_extent {b₀ b₁ : UInt8} {extended data body rest : List UInt8}
    (hextended : extended.length ≤ 8) (hlen : data.length + 14 < 2 ^ 64)
    (hextent : frameExtent (WsFrameHeader.ofBytes b₀ b₁)
      (b₀ :: b₁ :: (extended ++ (body ++ rest))) = some (2 + extended.length, data.length))
    (hbody : Masked b₀ b₁ data body) :
    peel (b₀ :: b₁ :: (extended ++ body) ++ rest) =
      .item ⟨(WsFrameHeader.ofBytes b₀ b₁).opcode, data⟩ rest := by
  let front := b₀ :: b₁ :: extended
  have hfront : front.length = 2 + extended.length := by
    simp only [front, List.length_cons]
    omega
  have hbuf : b₀ :: b₁ :: (extended ++ body) ++ rest = front ++ (body ++ rest) := by
    simp [front]
  have hheader : headerAt (front ++ (body ++ rest)) = WsFrameHeader.ofBytes b₀ b₁ := by
    simp [headerAt, front]
  have hfrontExtent : frameExtent (headerAt (front ++ (body ++ rest)))
      (front ++ (body ++ rest)) = some (front.length, data.length) := by
    rw [hheader, hfront]
    exact hextent
  have h2 : 2 ≤ (front ++ (body ++ rest)).length := by
    rw [List.length_append]
    omega
  rw [hbuf, peel_known h2 hfrontExtent (by omega), frameAt, hheader]
  rcases hbody with ⟨mask, hmask, rfl⟩ | ⟨hmask, rfl⟩
  · have hsize : maskSize (WsFrameHeader.ofBytes b₀ b₁) = 4 := if_pos hmask
    have hkey : maskKeyAt (front ++ (mask.bytes ++ applyMask mask data ++ rest)) front.length =
        mask := by
      rw [List.append_assoc]
      exact maskKeyAt_append mask front _
    have hstart : (front ++ mask.bytes).length = front.length + 4 := by simp
    have hend : (front ++ mask.bytes ++ applyMask mask data).length =
        front.length + 4 + data.length := by
      rw [List.length_append, hstart, applyMask_length]
    have hdata : (front ++ (mask.bytes ++ applyMask mask data ++ rest)).drop (front.length + 4) =
        applyMask mask data ++ rest := by
      rw [List.append_assoc, ← List.append_assoc, List.drop_left' hstart]
    have hrest : (front ++ (mask.bytes ++ applyMask mask data ++ rest)).drop
        (front.length + 4 + data.length) = rest := by
      rw [← List.append_assoc, ← List.append_assoc, List.drop_left' hend]
    rw [if_neg (by simp [hsize]; omega), hsize, if_pos hmask, hkey, hdata, hrest,
      List.take_left' (applyMask_length mask data), applyMask_applyMask]
  · have hsize : maskSize (WsFrameHeader.ofBytes b₀ b₁) = 0 := by simp [maskSize, hmask]
    have hrest : (front ++ (body ++ rest)).drop (front.length + body.length) = rest := by
      rw [← List.append_assoc, List.drop_left' (by simp)]
    rw [if_neg (by simp [hsize]), hsize, if_neg (by simp [hmask]), Nat.add_zero, hrest,
      List.drop_left, List.take_left]

theorem peel_layout {b₀ b₁ : UInt8} {data body rest : List UInt8}
    (hlen : data.length < 2 ^ 32)
    (hcode : (WsFrameHeader.ofBytes b₀ b₁).payload_len = UInt8.ofNat (lengthCode data.length))
    (hbody : Masked b₀ b₁ data body) :
    peel (b₀ :: b₁ :: (lengthBytes data.length ++ body) ++ rest) =
      .item ⟨(WsFrameHeader.ofBytes b₀ b₁).opcode, data⟩ rest :=
  peel_of_extent (lengthBytes_length_le _) (by omega)
    (frameExtent_lengthBytes _ _ _ _ _ (by omega) hcode) hbody

/-- A frame of `build_ws_frame` leaves the buffer in one turn, whatever follows it. -/
theorem peel_buildWsFrame (data : List UInt8) (mask : MaskKey) (has_mask : Bool)
    (opcode : Fin 16) (fin : Bool) (rest : List UInt8) (h : data.length < 2 ^ 32) :
    peel (buildWsFrame data mask has_mask (UInt8.ofNat opcode) fin ++ rest) =
      .item ⟨UInt8.ofNat opcode, data⟩ rest := by
  obtain ⟨hcode, hmask⟩ := second_ofBytes
    ((if fin then 0x80 else 0x00) ||| (UInt8.ofNat opcode &&& 0x0F))
    ⟨lengthCode data.length, lengthCode_lt _⟩ has_mask
  rw [buildWsFrame_eq _ _ _ _ _ h, peel_layout h hcode, opcode_ofBytes]
  cases has_mask with
  | true => exact .inl ⟨mask, hmask.mpr rfl, rfl⟩
  | false =>
      refine .inr ⟨?_, rfl⟩
      by_contra hne
      simpa using hmask.mp hne

theorem WsFrame.data_length_lt (f : WsFrame) : f.data.length < 2 ^ 32 := by
  have hge := buildWsFrame_length_ge f.data (f.mask.getD fun _ => 0) f.mask.isSome
    (UInt8.ofNat f.opcode) f.fin
  have hle := f.fits
  rw [intMax] at hle
  omega

theorem ClientFrame.build_eq (f : ClientFrame) :
    f.build = some (buildWsFrame f.data f.mask true (UInt8.ofNat f.opcode) true) := by
  apply buildFrame_eq_some _ _ _
  have hle := f.fits
  rw [maxFrameSize] at hle ⊢
  omega

/-! ## Lists of frames -/

theorem feedRecvData_encode (fs : List WsFrame) :
    feedRecvData true [] (fs.flatMap WsFrame.encode) =
      .returned (fs.map WsFrame.message) [] := by
  apply (feedRecvData_iff_drains _ _ _ _).mpr
  refine drains_flatMap (peel_short (by simp)) ?_ fs
  intro f rest
  exact peel_buildWsFrame _ _ _ _ _ rest f.data_length_lt

theorem feedRecvData_build (fs : List ClientFrame) :
    ∃ frames, fs.mapM ClientFrame.build = some frames ∧
      feedRecvData true [] frames.flatten = .returned (fs.map ClientFrame.message) [] := by
  let encode : ClientFrame → List UInt8 := fun f =>
    buildWsFrame f.data f.mask true (UInt8.ofNat f.opcode) true
  have hbuild : fs.mapM ClientFrame.build = some (fs.map encode) := by
    induction fs with
    | nil => rfl
    | cons f fs ih => simp [List.mapM_cons, f.build_eq, ih, encode]
  refine ⟨fs.map encode, hbuild, (feedRecvData_iff_drains _ _ _ _).mpr ?_⟩
  rw [List.nil_append, ← List.flatMap_def]
  refine drains_flatMap (peel_short (by simp)) ?_ fs
  intro f rest
  have hle := f.fits
  rw [maxFrameSize] at hle
  exact peel_buildWsFrame _ _ _ _ _ rest (by omega)

/-- What either encoder produces, in a list of any length, is decoded to exactly the
frames that went in. -/
theorem encoded_frames_decode :
    (∀ fs : List WsFrame,
      feedRecvData true [] (fs.flatMap WsFrame.encode) =
        .returned (fs.map WsFrame.message) []) ∧
    ∀ fs : List ClientFrame, ∃ frames, fs.mapM ClientFrame.build = some frames ∧
      feedRecvData true [] frames.flatten = .returned (fs.map ClientFrame.message) [] :=
  ⟨feedRecvData_encode, feedRecvData_build⟩

end LibConn.WebSocket
