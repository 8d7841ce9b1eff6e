import LibConn.Model.WebSocket
import Mathlib.Data.List.GetD

/-! # What the encoders put on the wire

Both encoders write two header bytes, the length in one of three forms, and the
payload, behind its mask if there is one. -/

namespace LibConn.WebSocket

open LibConn.Bytes

/-! ## Masking -/

@[simp] theorem applyMask_length (mask : MaskKey) (data : List UInt8) :
    (applyMask mask data).length = data.length := by
  simp [applyMask]

theorem applyMask_applyMask (mask : MaskKey) (data : List UInt8) :
    applyMask mask (applyMask mask data) = data := by
  apply List.ext_getElem (by simp)
  intro i _ _
  simp only [applyMask, List.getElem_mapIdx, UInt8.xor_assoc, UInt8.xor_self, UInt8.xor_zero]

@[simp] theorem MaskKey.bytes_length (mask : MaskKey) : mask.bytes.length = 4 := by
  simp [MaskKey.bytes]

theorem maskKeyAt_append (mask : MaskKey) (head rest : List UInt8) :
    maskKeyAt (head ++ (mask.bytes ++ rest)) head.length = mask := by
  funext i
  have hi : (i : ℕ) < mask.bytes.length := by simp
  rw [maskKeyAt, List.getD_append_right _ _ _ _ (Nat.le_add_right _ _), Nat.add_sub_cancel_left,
    List.getD_append _ _ _ _ hi, List.getD_eq_getElem _ _ hi]
  simp only [MaskKey.bytes, List.getElem_ofFn]

/-! ## The three forms of the length -/

/-- The value of the 7-bit length field. -/
def lengthCode (len : ℕ) : ℕ :=
  if len < 126 then len else if len ≤ 65535 then 126 else 127

/-- The extended length, most significant byte first. -/
def lengthBytes (len : ℕ) : List UInt8 :=
  if len < 126 then [] else if len ≤ 65535 then (leBytes 2 len).reverse
  else (leBytes 8 len).reverse

theorem lengthCode_lt (len : ℕ) : lengthCode len < 128 := by
  rw [lengthCode]
  split_ifs <;> omega

theorem lengthBytes_length_le (len : ℕ) : (lengthBytes len).length ≤ 8 := by
  rw [lengthBytes]
  split_ifs <;> simp

theorem wsNtoh_two (a b : UInt8) : wsNtoh [a, b] = [b, a] := by
  simp [wsNtoh]

theorem wsNtoh_eight (a b c d e f g h : UInt8) :
    wsNtoh [a, b, c, d, e, f, g, h] = [h, g, f, e, d, c, b, a] := by
  simp [wsNtoh, List.range_succ]

theorem wsNtoh_leBytes_two (n : ℕ) : wsNtoh (leBytes 2 n) = (leBytes 2 n).reverse := by
  simp only [leBytes, wsNtoh_two, List.reverse_cons, List.reverse_nil, List.nil_append,
    List.cons_append]

theorem wsNtoh_leBytes_eight (n : ℕ) : wsNtoh (leBytes 8 n) = (leBytes 8 n).reverse := by
  simp only [leBytes, wsNtoh_eight, List.reverse_cons, List.reverse_nil, List.nil_append,
    List.cons_append]

theorem wsNtoh_reverse_leBytes_two (n : ℕ) : wsNtoh (leBytes 2 n).reverse = leBytes 2 n := by
  simp only [leBytes, wsNtoh_two, List.reverse_cons, List.reverse_nil, List.nil_append,
    List.cons_append]

theorem wsNtoh_reverse_leBytes_eight (n : ℕ) : wsNtoh (leBytes 8 n).reverse = leBytes 8 n := by
  simp only [leBytes, wsNtoh_eight, List.reverse_cons, List.reverse_nil, List.nil_append,
    List.cons_append]

theorem ofNat_and_low (n : ℕ) : UInt8.ofNat (n &&& 0xFF) = UInt8.ofNat n := by
  apply UInt8.toNat_inj.mp
  simp [Nat.and_two_pow_sub_one_eq_mod n 8]

theorem leBytes_two_reverse (n : ℕ) :
    (leBytes 2 n).reverse = [UInt8.ofNat ((n >>> 8) &&& 0xFF), UInt8.ofNat (n &&& 0xFF)] := by
  simp only [leBytes, ofNat_and_low, Nat.shiftRight_eq_div_pow, Nat.reducePow,
    List.reverse_cons, List.reverse_nil, List.nil_append, List.cons_append]

/-- The 64-bit length of `build_ws_frame`, whose upper half is zero. -/
theorem leBytes_eight_reverse (n : ℕ) (h : n < 2 ^ 32) :
    (leBytes 8 n).reverse =
      [0, UInt8.ofNat ((n >>> 56) &&& 0xFF), UInt8.ofNat ((n >>> 48) &&& 0xFF),
        UInt8.ofNat ((n >>> 40) &&& 0xFF), UInt8.ofNat ((n >>> 24) &&& 0xFF),
        UInt8.ofNat ((n >>> 16) &&& 0xFF), UInt8.ofNat ((n >>> 8) &&& 0xFF),
        UInt8.ofNat (n &&& 0xFF)] := by
  have h32 : n / 4294967296 = 0 := by omega
  have h40 : n / 1099511627776 = 0 := by omega
  have h48 : n / 281474976710656 = 0 := by omega
  have h56 : n / 72057594037927936 = 0 := by omega
  simp only [leBytes, ofNat_and_low, Nat.shiftRight_eq_div_pow, Nat.div_div_eq_div_mul,
    List.reverse_cons, List.reverse_nil, List.nil_append, List.cons_append, Nat.reduceMul,
    Nat.reducePow, Nat.zero_div, h32, h40, h48, h56]
  rfl

/-! ## The header bytes -/

theorem opcode_ofBytes (opcode : Fin 16) (fin : Bool) (b₁ : UInt8) :
    (WsFrameHeader.ofBytes
      ((if fin then 0x80 else 0x00) ||| (UInt8.ofNat opcode &&& 0x0F)) b₁).opcode =
      UInt8.ofNat opcode := by
  simp only [WsFrameHeader.ofBytes]
  revert opcode fin
  decide

theorem second_ofBytes (b₀ : UInt8) (code : Fin 128) (has_mask : Bool) :
    let fh := WsFrameHeader.ofBytes b₀ ((if has_mask then 0x80 else 0x00) ||| UInt8.ofNat code)
    fh.payload_len = UInt8.ofNat code ∧ (fh.mask ≠ 0 ↔ has_mask = true) := by
  simp only [WsFrameHeader.ofBytes]
  revert code has_mask
  decide

/-- The bit-field header of `buildFrame` is the pair of bytes `build_ws_frame` shifts
together. -/
theorem header_bytes (opcode : UInt8) (code : Fin 128) :
    (WsFrameHeader.mk opcode 0 1 (UInt8.ofNat code) 1).bytes =
      [0x80 ||| (opcode &&& 0x0F), 0x80 ||| UInt8.ofNat code] := by
  have hcode : ∀ code : Fin 128,
      (UInt8.ofNat code &&& 0x7F) ||| 0x80 = 0x80 ||| UInt8.ofNat code := by
    decide
  have hfin : ((1 : UInt8) &&& 0x01) <<< 7 = 0x80 := by decide
  have hreserved : ((0 : UInt8) &&& 0x07) <<< 4 = 0 := by decide
  simp only [WsFrameHeader.bytes, hfin, hreserved, hcode code, UInt8.or_zero]
  rw [UInt8.or_comm]

/-! ## The encoders -/

/-- Both encoders in one form: header, length and payload. -/
theorem buildWsFrame_eq (data : List UInt8) (mask : MaskKey) (has_mask : Bool)
    (opcode : UInt8) (fin : Bool) (h : data.length < 2 ^ 32) :
    buildWsFrame data mask has_mask opcode fin =
      ((if fin then 0x80 else 0x00) ||| (opcode &&& 0x0F)) ::
        ((if has_mask then 0x80 else 0x00) ||| UInt8.ofNat (lengthCode data.length)) ::
        (lengthBytes data.length ++
          (if has_mask then mask.bytes ++ applyMask mask data else data)) := by
  unfold buildWsFrame lengthCode lengthBytes
  by_cases hshort : data.length < 126
  · have hlow : data.length &&& 0x7F = data.length := by
      rw [Nat.and_two_pow_sub_one_eq_mod _ 7]
      exact Nat.mod_eq_of_lt (by omega)
    simp [hshort, hlow]
  · by_cases hmid : data.length ≤ 65535
    · simp [hshort, hmid, leBytes_two_reverse]
    · simp [hshort, hmid, leBytes_eight_reverse _ h]

/-- `buildFrame` writes what `build_ws_frame` writes for a final masked frame. -/
theorem buildFrame_eq_some (data : List UInt8) (opcode : UInt8) (mask : MaskKey)
    (h : data.length ≤ maxFrameSize) :
    buildFrame data opcode mask = some (buildWsFrame data mask true opcode true) := by
  have hmax : data.length < 2 ^ 32 := by
    rw [maxFrameSize] at h
    omega
  have hcode : (if data.length > 65535 then 127 else if data.length > 125 then 126
      else data.length) = lengthCode data.length := by
    rw [lengthCode]
    split_ifs <;> omega
  have hheader := header_bytes opcode ⟨lengthCode data.length, lengthCode_lt _⟩
  have hlength : (if UInt8.ofNat (lengthCode data.length) = 126 then wsNtoh (leBytes 2 data.length)
      else if UInt8.ofNat (lengthCode data.length) = 127 then wsNtoh (leBytes 8 data.length)
      else []) = lengthBytes data.length := by
    unfold lengthCode lengthBytes
    by_cases hshort : data.length < 126
    · have h126 : UInt8.ofNat data.length ≠ 126 := by
        intro he
        have := congrArg UInt8.toNat he
        simp at this
        omega
      have h127 : UInt8.ofNat data.length ≠ 127 := by
        intro he
        have := congrArg UInt8.toNat he
        simp at this
        omega
      simp [hshort, h126, h127]
    · by_cases hmid : data.length ≤ 65535
      · simp [hshort, hmid, wsNtoh_leBytes_two]
      · simp [hshort, hmid, wsNtoh_leBytes_eight]
  rw [buildWsFrame_eq _ _ _ _ _ hmax]
  rw [buildFrame]
  simp only [hcode, hlength, Nat.not_lt.mpr h, gt_iff_lt, ite_false, ite_true]
  simp only at hheader
  rw [hheader]
  simp

end LibConn.WebSocket
