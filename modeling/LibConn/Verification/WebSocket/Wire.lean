import LibConn.Verification.WebSocket.RoundTrip

/-! # Frames on the wire

Any peer may send what no encoder here produces: reserved bits, a length in a longer form
than it needs, a payload of up to `2^63 - 1` bytes. -/

namespace LibConn.WebSocket

open LibConn.Bytes
open LibConn.Peeling

/-- The payload length that a header declares, in its own seven bits or in the two or eight
bytes behind it, the most significant one first. -/
def Declares (code : UInt8) (extended : List UInt8) (len : ℕ) : Prop :=
  if code < 126 then extended = [] ∧ len = code.toNat
  else extended.length = (if code = 126 then 2 else 8) ∧ len = leNat extended.reverse

theorem wsNtoh_of_length_eight {mem : List UInt8} (h : mem.length = 8) :
    wsNtoh mem = mem.reverse := by
  match mem, h with
  | [a, b, c, d, e, f, g, h], _ => exact wsNtoh_eight a b c d e f g h

instance declaresDecidable (code : UInt8) (extended : List UInt8) (len : ℕ) :
    Decidable (Declares code extended len) :=
  inferInstanceAs (Decidable (if code < 126 then _ else _))

/-- A complete frame; `mask` counts where the header says that there is one. -/
structure WireFrame where
  b₀ : UInt8
  b₁ : UInt8
  extended : List UInt8
  mask : MaskKey
  data : List UInt8
  declares : Declares (b₁ &&& 0x7F) extended data.length
  fits : data.length < 2 ^ 63

namespace WireFrame

def header (f : WireFrame) : WsFrameHeader :=
  .ofBytes f.b₀ f.b₁

def body (f : WireFrame) : List UInt8 :=
  if f.header.mask ≠ 0 then f.mask.bytes ++ applyMask f.mask f.data else f.data

def bytes (f : WireFrame) : List UInt8 :=
  f.b₀ :: f.b₁ :: (f.extended ++ f.body)

def message (f : WireFrame) : Message :=
  ⟨f.header.opcode, f.data⟩

theorem masked (f : WireFrame) : Masked f.b₀ f.b₁ f.data f.body := by
  by_cases hmask : f.header.mask = 0
  · exact .inr ⟨hmask, if_neg (not_not.mpr hmask)⟩
  · exact .inl ⟨f.mask, hmask, if_pos hmask⟩

theorem extended_length_le (f : WireFrame) : f.extended.length ≤ 8 := by
  have hdeclares := f.declares
  rw [Declares] at hdeclares
  split_ifs at hdeclares
  · rw [hdeclares.1]
    exact Nat.zero_le 8
  · rw [hdeclares.1]
    exact Nat.le_of_ble_eq_true rfl
  · exact hdeclares.1.le

theorem frameExtent_eq (f : WireFrame) (rest : List UInt8) :
    frameExtent f.header (f.b₀ :: f.b₁ :: (f.extended ++ rest)) =
      some (2 + f.extended.length, f.data.length) := by
  have hdeclares := f.declares
  have hcode : f.header.payload_len = f.b₁ &&& 0x7F := rfl
  rw [Declares, ← hcode] at hdeclares
  rw [frameExtent]
  split_ifs at hdeclares ⊢ with hshort h126 hmissing hmissing
  · rw [hdeclares.1, hdeclares.2]
    rfl
  · simp only [List.length_cons, List.length_append, hdeclares.1] at hmissing
    omega
  · have htake : (f.extended ++ rest).take 2 = f.extended := List.take_left' hdeclares.1
    obtain ⟨a, b, hext⟩ := List.length_eq_two.mp hdeclares.1
    rw [List.drop_succ_cons, List.drop_succ_cons, List.drop_zero, htake, hdeclares.2, hext,
      wsNtoh_two]
    rfl
  · simp only [List.length_cons, List.length_append, hdeclares.1] at hmissing
    omega
  · have htake : (f.extended ++ rest).take 8 = f.extended := List.take_left' hdeclares.1
    rw [List.drop_succ_cons, List.drop_succ_cons, List.drop_zero, htake, hdeclares.2,
      wsNtoh_of_length_eight hdeclares.1, hdeclares.1]

/-- A complete frame leaves the buffer in one turn, whatever follows it. -/
theorem peel_bytes (f : WireFrame) (rest : List UInt8) :
    peel (f.bytes ++ rest) = .item f.message rest := by
  have hfits := f.fits
  exact peel_of_extent f.extended_length_le (by omega) (f.frameExtent_eq _) f.masked

theorem declaredFits (f : WireFrame) (rest : List UInt8) : DeclaredFits (f.bytes ++ rest) := by
  intro _ offset payload_len hextent
  have hbytes : f.bytes ++ rest = f.b₀ :: f.b₁ :: (f.extended ++ (f.body ++ rest)) := by
    simp [bytes]
  have hheader : headerAt (f.bytes ++ rest) = f.header := by
    rw [hbytes]
    rfl
  rw [hheader, hbytes, f.frameExtent_eq] at hextent
  obtain ⟨rfl, rfl⟩ := Prod.mk.inj (Option.some.inj hextent)
  have hext := f.extended_length_le
  have hfits := f.fits
  omega

theorem drains (fs : List WireFrame) :
    Drains peel (fs.flatMap bytes) (fs.map message) [] :=
  drains_flatMap (peel_short (by simp)) peel_bytes fs

theorem throughout (fs : List WireFrame) : Throughout peel DeclaredFits (fs.flatMap bytes) :=
  throughout_flatMap (peel_short (by simp)) (fun h => absurd h (by decide)) peel_bytes
    declaredFits fs

/-- Of a stream of frames, what has arrived either waits for more of the first frame, or gives
that frame. -/
theorem peel_arrived {fs : List WireFrame} {m_buffer wire : List UInt8}
    (h : m_buffer ++ wire = fs.flatMap bytes) :
    (peel m_buffer = .wait ∧
        ∀ f fs', fs = f :: fs' → (fs'.flatMap bytes).length < wire.length) ∨
      ∃ f fs' rest, fs = f :: fs' ∧ peel m_buffer = .item f.message rest ∧
        rest ++ wire = fs'.flatMap bytes := by
  have hfits : DeclaredFits (m_buffer ++ wire) := by
    rw [h]
    cases fs with
    | nil => exact fun hshort => absurd hshort (by decide)
    | cons f fs => exact declaredFits f _
  cases hpeel : peel m_buffer with
  | wait =>
      refine .inl ⟨rfl, ?_⟩
      rintro f fs' rfl
      by_contra hlong
      rw [List.flatMap_cons] at h
      obtain ⟨rest, hbuffer, -⟩ | ⟨more, hmore, hwire⟩ := List.append_eq_append_iff.mp h.symm
      · rw [hbuffer, peel_bytes] at hpeel
        cases hpeel
      · rw [hwire, List.length_append] at hlong
        obtain rfl : more = [] := List.length_eq_zero_iff.mp (by omega)
        have hitem := peel_bytes f []
        rw [hmore, List.append_nil, List.append_nil, hpeel] at hitem
        cases hitem
  | fail => exact absurd hpeel (peel_extensible.ne_fail m_buffer wire hfits)
  | item x rest =>
      have hitem := peel_extensible.item_append m_buffer wire x rest hfits hpeel
      rw [h] at hitem
      cases fs with
      | nil =>
          rw [List.flatMap_nil, peel_short (by decide)] at hitem
          cases hitem
      | cons f fs' =>
          rw [List.flatMap_cons, peel_bytes] at hitem
          obtain ⟨rfl, hrest⟩ := Outcome.item.inj hitem
          exact .inr ⟨f, fs', rest, rfl, rfl, hrest.symm⟩

/-- Frames come out the same however their stream is cut. -/
theorem feeds {fs : List WireFrame} {segments : List (List UInt8)}
    (h : segments.flatten = fs.flatMap bytes) : Feeds peel [] segments (fs.map message) [] := by
  have hfits : Throughout peel DeclaredFits ([] ++ segments.flatten) := by
    rw [List.nil_append, h]
    exact throughout fs
  apply (peel_extensible.feeds_iff_drains segments [] [] _ (peel_short (by simp)) hfits).mpr
  rw [List.nil_append, h]
  exact drains fs

end WireFrame

/-! ## Encoded frames -/

namespace WsFrame

/-- The second byte that `build_ws_frame` writes. -/
def secondByte (f : WsFrame) : UInt8 :=
  (if f.mask.isSome then 0x80 else 0x00) ||| UInt8.ofNat (lengthCode f.data.length)

theorem secondByte_ofBytes (f : WsFrame) (b₀ : UInt8) :
    (WsFrameHeader.ofBytes b₀ f.secondByte).payload_len = UInt8.ofNat (lengthCode f.data.length) ∧
      ((WsFrameHeader.ofBytes b₀ f.secondByte).mask ≠ 0 ↔ f.mask.isSome = true) :=
  second_ofBytes b₀ ⟨lengthCode f.data.length, lengthCode_lt _⟩ f.mask.isSome

theorem declares (f : WsFrame) :
    Declares (f.secondByte &&& 0x7F) (lengthBytes f.data.length) f.data.length := by
  have hcode : f.secondByte &&& 0x7F = UInt8.ofNat (lengthCode f.data.length) :=
    (f.secondByte_ofBytes 0).1
  have hlen := f.data_length_lt
  rw [Declares, hcode, lengthCode, lengthBytes]
  by_cases hshort : f.data.length < 126
  · have hval : (UInt8.ofNat f.data.length).toNat = f.data.length := by
      rw [UInt8.toNat_ofNat']
      omega
    have hlt : UInt8.ofNat f.data.length < 126 := by
      rw [UInt8.lt_iff_toNat_lt, hval]
      exact hshort
    rw [if_pos hshort, if_pos hshort, if_pos hlt]
    exact ⟨rfl, hval.symm⟩
  · by_cases hmid : f.data.length ≤ 65535
    · have h126 : ¬ UInt8.ofNat 126 < 126 := by decide
      have hlong : UInt8.ofNat 126 = 126 := rfl
      rw [if_neg hshort, if_neg hshort, if_pos hmid, if_pos hmid, if_neg h126, if_pos hlong,
        List.length_reverse, leBytes_length, List.reverse_reverse]
      exact ⟨rfl, (leNat_leBytes_of_lt (by omega)).symm⟩
    · have h127 : ¬ UInt8.ofNat 127 < 126 := by decide
      have hlong : UInt8.ofNat 127 ≠ 126 := by decide
      rw [if_neg hshort, if_neg hshort, if_neg hmid, if_neg hmid, if_neg h127, if_neg hlong,
        List.length_reverse, leBytes_length, List.reverse_reverse]
      exact ⟨rfl, (leNat_leBytes_of_lt (by omega)).symm⟩

/-- What `build_ws_frame` makes is a frame on the wire. -/
def wire (f : WsFrame) : WireFrame where
  b₀ := (if f.fin then 0x80 else 0x00) ||| (UInt8.ofNat f.opcode &&& 0x0F)
  b₁ := f.secondByte
  extended := lengthBytes f.data.length
  mask := f.mask.getD fun _ => 0
  data := f.data
  declares := f.declares
  fits := by
    have hlen := f.data_length_lt
    omega

theorem wire_bytes (f : WsFrame) : f.wire.bytes = f.encode := by
  have hmask : f.wire.header.mask ≠ 0 ↔ f.mask.isSome = true := (f.secondByte_ofBytes _).2
  rw [encode, buildWsFrame_eq _ _ _ _ _ f.data_length_lt, WireFrame.bytes, WireFrame.body]
  simp only [hmask]
  rfl

theorem wire_message (f : WsFrame) : f.wire.message = f.message := by
  rw [WireFrame.message, WireFrame.header, message]
  exact congrArg (Message.mk · f.data) (opcode_ofBytes f.opcode f.fin _)

theorem feeds {fs : List WsFrame} {segments : List (List UInt8)}
    (h : segments.flatten = fs.flatMap encode) :
    Feeds peel [] segments (fs.map message) [] := by
  have hwire : segments.flatten = (fs.map wire).flatMap WireFrame.bytes := by
    rw [h, List.flatMap_map]
    exact List.flatMap_congr fun f _ => f.wire_bytes.symm
  have hmessages : (fs.map wire).map WireFrame.message = fs.map message := by
    rw [List.map_map]
    exact List.map_congr_left fun f _ => f.wire_message
  exact hmessages ▸ WireFrame.feeds hwire

end WsFrame

end LibConn.WebSocket
