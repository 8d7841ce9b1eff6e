import LibConn.Verification.WebSocket.Wire

/-! # Reading within the buffer

The size checks of `feedRecvData` compare sums that have wrapped. They let through a frame
that the buffer does not hold exactly where `offset + payload_len` reaches `2^64`. -/

namespace LibConn.WebSocket

open LibConn.Bytes
open LibConn.Peeling

/-- The declared length wraps, and the buffer is as long as what is left of the sums. The
first check needs no more than the bytes of the length itself. -/
def WrapsPast (m_buffer : List UInt8) : Prop :=
  2 ≤ m_buffer.length ∧ ∃ offset payload_len,
    frameExtent (headerAt m_buffer) m_buffer = some (offset, payload_len) ∧
      2 ^ 64 ≤ offset + payload_len ∧
      ((headerAt m_buffer).mask ≠ 0 → offset + payload_len + 4 ≤ 2 ^ 64 + m_buffer.length)

/-! ## One turn -/

section Turn

variable {m_buffer : List UInt8} {offset payload_len : ℕ}

theorem frameExtent_bounds {fh : WsFrameHeader}
    (h : frameExtent fh m_buffer = some (offset, payload_len)) :
    payload_len < 2 ^ 64 ∧
      (2 ^ 64 ≤ offset + payload_len → offset = 10 ∧ 10 ≤ m_buffer.length) := by
  rw [frameExtent] at h
  split_ifs at h with hshort hmid hlen2 hlen8
  · obtain ⟨rfl, rfl⟩ := Prod.mk.inj (Option.some.inj h)
    have hlt : fh.payload_len.toNat < 256 := fh.payload_len.toNat_lt
    omega
  · obtain ⟨rfl, rfl⟩ := Prod.mk.inj (Option.some.inj h)
    obtain ⟨a, b, hab⟩ : ∃ a b, (m_buffer.drop 2).take 2 = [a, b] :=
      List.length_eq_two.mp (by simp; omega)
    have hlt := leNat_lt [b, a]
    rw [hab, wsNtoh_two]
    simp only [List.length_cons, List.length_nil] at hlt
    omega
  · obtain ⟨rfl, rfl⟩ := Prod.mk.inj (Option.some.inj h)
    have hlength : ((m_buffer.drop 2).take 8).length = 8 := by
      simp
      omega
    have hlt := leNat_lt ((m_buffer.drop 2).take 8).reverse
    rw [List.length_reverse, hlength] at hlt
    rw [wsNtoh_of_length_eight hlength]
    omega

theorem dispatch_overrun_iff {fh : WsFrameHeader} :
    dispatch fh offset payload_len m_buffer = .overrun ↔
      m_buffer.length < offset + payload_len := by
  rw [dispatch]
  split_ifs with h <;> simp [h]

/-- A turn that passes the size checks leaves the buffer exactly where the sums wrap. -/
theorem turn_overrun_iff (hsize : m_buffer.length < 2 ^ 63) :
    turn m_buffer = .overrun ↔ WrapsPast m_buffer := by
  rw [turn, WrapsPast]
  by_cases h2 : m_buffer.length < 2
  · simp [h2, Nat.not_le.mpr h2]
  rw [if_neg h2]
  cases he : frameExtent (headerAt m_buffer) m_buffer with
  | none => simp [he]
  | some extent =>
      obtain ⟨offset, payload_len⟩ := extent
      obtain ⟨hlt, hlong⟩ := frameExtent_bounds he
      have hoffset := frameExtent_offset he
      have hlen : 2 ≤ m_buffer.length := Nat.not_lt.mp h2
      simp only [he, Option.some.injEq, Prod.mk.injEq, hlen, true_and]
      have hiff : (∃ o p, (offset = o ∧ payload_len = p) ∧ 2 ^ 64 ≤ o + p ∧
          ((headerAt m_buffer).mask ≠ 0 → o + p + 4 ≤ 2 ^ 64 + m_buffer.length)) ↔
          2 ^ 64 ≤ offset + payload_len ∧
            ((headerAt m_buffer).mask ≠ 0 →
              offset + payload_len + 4 ≤ 2 ^ 64 + m_buffer.length) := by
        constructor
        · rintro ⟨o, p, ⟨rfl, rfl⟩, h⟩
          exact h
        · exact fun h => ⟨offset, payload_len, ⟨rfl, rfl⟩, h⟩
      rw [hiff]
      by_cases hmask : (headerAt m_buffer).mask = 0
      · simp only [hmask, ne_eq, not_true_eq_false, if_false, false_implies, and_true]
        unfold sizeAdd
        split_ifs with hwait
        · simp only [false_iff]
          omega
        · rw [dispatch_overrun_iff]
          omega
      · simp only [hmask, ne_eq, not_false_eq_true, if_true, true_implies]
        unfold sizeAdd
        split_ifs with hwait hwait4
        · simp only [false_iff]
          omega
        · simp only [false_iff]
          omega
        · rw [dispatch_overrun_iff, unmaskInPlace_length]
          omega

end Turn

/-! ## The loop -/

section Loop

variable {m_buffer : List UInt8}

/-- No buffer that the loop gets to wraps past the checks. -/
def NeverWraps (m_buffer : List UInt8) : Prop :=
  Throughout peel (fun b => ¬ WrapsPast b) m_buffer

theorem after_overrun_iff {message : Message} {result : FeedResult} :
    result.after message = .overrun ↔ result = .overrun := by
  cases result <;> simp [FeedResult.after]

theorem feedLoop_overrun_iff (turns : ℕ) (hsize : m_buffer.length < 2 ^ 63)
    (hturns : m_buffer.length < turns) :
    feedLoop true turns m_buffer = .overrun ↔ ¬ NeverWraps m_buffer := by
  induction turns generalizing m_buffer with
  | zero => omega
  | succ turns ih =>
      have hiff := turn_overrun_iff hsize
      cases hturn : turn m_buffer with
      | wait =>
          have hpeel : peel m_buffer = .wait := peel_eq_wait_iff.mpr hturn
          have hstays : ¬ WrapsPast m_buffer := fun h => by
            rw [hiff.mpr h] at hturn
            cases hturn
          simp only [feedLoop, hturn]
          have hnever : NeverWraps m_buffer := .wait hstays hpeel
          simpa using hnever
      | overrun =>
          simp only [feedLoop, hturn, true_iff]
          exact fun h => h.here (hiff.mp hturn)
      | frame message unmasked consumed =>
          have hpeel : peel m_buffer = .item message (unmasked.drop consumed) := by
            simp [peel, hturn]
          have hshrinks := peel_item_length hpeel
          have hstays : ¬ WrapsPast m_buffer := fun h => by
            rw [hiff.mpr h] at hturn
            cases hturn
          simp only [feedLoop, hturn, if_true]
          rw [after_overrun_iff, ih (by omega) (by omega), not_iff_not]
          exact ⟨fun h => .item hstays hpeel h, fun h => h.rest hpeel⟩

end Loop

/-! ## Without a callback

No frame is taken out: the loop looks at the first one again and again. -/

section Unset

variable {m_buffer other : List UInt8}

/-- The header and the length are read from the first `offset` bytes. -/
theorem frameExtent_congr {fh : WsFrameHeader} {offset payload_len : ℕ}
    (h : frameExtent fh m_buffer = some (offset, payload_len))
    (hlen : other.length = m_buffer.length) (htake : other.take offset = m_buffer.take offset) :
    frameExtent fh other = some (offset, payload_len) := by
  rw [frameExtent] at h ⊢
  rw [hlen]
  split_ifs at h ⊢ with hshort hmid hlen2 hlen8
  · exact h
  · obtain ⟨rfl, rfl⟩ := Prod.mk.inj (Option.some.inj h)
    have hbytes := congrArg (List.drop 2) htake
    rw [List.drop_take, List.drop_take] at hbytes
    rw [hbytes]
  · obtain ⟨rfl, rfl⟩ := Prod.mk.inj (Option.some.inj h)
    have hbytes := congrArg (List.drop 2) htake
    rw [List.drop_take, List.drop_take] at hbytes
    rw [hbytes]

theorem headerAt_congr {offset : ℕ} (hoffset : 2 ≤ offset)
    (htake : other.take offset = m_buffer.take offset) : headerAt other = headerAt m_buffer := by
  have hget : ∀ i < 2, other[i]? = m_buffer[i]? := by
    intro i hi
    rw [← List.getElem?_take_of_lt (show i < offset by omega), htake,
      List.getElem?_take_of_lt (by omega)]
  simp only [headerAt, List.getD_eq_getElem?_getD, hget 0 (by omega), hget 1 (by omega)]

theorem turn_frame_wrapsPast {unmasked : List UInt8} {message : Message} {consumed : ℕ}
    (h : turn m_buffer = .frame message unmasked consumed) :
    WrapsPast unmasked ↔ WrapsPast m_buffer := by
  obtain ⟨-, offset, payload_len, he, -, -, hlength, htake, -⟩ := turn_frame_extent h
  have hheader := headerAt_congr (frameExtent_offset he).1 htake
  have he' := frameExtent_congr he hlength htake
  rw [WrapsPast, WrapsPast, hheader, hlength, he, he']

theorem feedLoop_unset_overrun_iff (hsize : m_buffer.length < 2 ^ 63) :
    (∃ turns, feedLoop false turns m_buffer = .overrun) ↔ WrapsPast m_buffer := by
  have hiff := turn_overrun_iff hsize
  constructor
  · rintro ⟨turns, h⟩
    induction turns generalizing m_buffer with
    | zero => cases h
    | succ turns ih =>
        cases hturn : turn m_buffer with
        | wait => simp [feedLoop, hturn] at h
        | overrun => exact hiff.mp hturn
        | frame message unmasked consumed =>
            have hlength := (turn_frame hturn).2.2
            have hsize' : unmasked.length < 2 ^ 63 := hlength ▸ hsize
            have hrest : feedLoop false turns unmasked = .overrun := by
              simpa [feedLoop, hturn] using h
            exact (turn_frame_wrapsPast hturn).mp
              (ih hsize' (turn_overrun_iff hsize') hrest)
  · intro h
    exact ⟨1, by simp [feedLoop, hiff.mpr h]⟩

end Unset

/-- `feedRecvData` stays within its buffer exactly where no frame that it looks at declares a
length that wraps past the checks. -/
theorem feedRecvData_in_bounds_iff (m_buffer data : List UInt8)
    (hsize : (m_buffer ++ data).length < 2 ^ 63) :
    (feedRecvData true m_buffer data ≠ .overrun ↔ NeverWraps (m_buffer ++ data)) ∧
      ((∀ turns, feedLoop false turns (m_buffer ++ data) ≠ .overrun) ↔
        ¬ WrapsPast (m_buffer ++ data)) := by
  constructor
  · rw [feedRecvData, ne_eq, feedLoop_overrun_iff _ hsize (Nat.lt_succ_self _), not_not]
  · rw [← feedLoop_unset_overrun_iff hsize, not_exists]

/-- A text frame of two bytes: nothing wraps. -/
theorem feedRecvData_in_bounds_text :
    feedRecvData true [] [0x81, 0x02, 0x68, 0x69] ≠ .overrun := by
  have hlast : peel [] = .wait := rfl
  have hitem : peel [0x81, 0x02, 0x68, 0x69] = .item ⟨1, [0x68, 0x69]⟩ [] := rfl
  have hshort : ¬ WrapsPast [] := fun h => absurd h.1 (by decide)
  have htext : ¬ WrapsPast [0x81, 0x02, 0x68, 0x69] := by
    rintro ⟨-, offset, payload_len, h, hwraps, -⟩
    have hextent : some (2, 2) = some (offset, payload_len) := h
    simp only [Option.some.injEq, Prod.mk.injEq] at hextent
    omega
  have h := feedRecvData_in_bounds_iff [] [0x81, 0x02, 0x68, 0x69] (by decide)
  exact h.1.mpr (.item htext hitem (.wait hshort hlast))

/-- A binary frame that declares `2^64 - 1` bytes and has none. -/
theorem not_feedRecvData_in_bounds :
    feedRecvData true [] [0x82, 0x7F, 0xFF, 0xFF, 0xFF, 0xFF, 0xFF, 0xFF, 0xFF, 0xFF] =
      .overrun := by
  decide

end LibConn.WebSocket
