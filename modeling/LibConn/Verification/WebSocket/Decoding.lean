import LibConn.Model.WebSocket
import Mathlib.Data.List.GetD

/-! # One turn of the decoder, and the loop

As long as the declared length leaves the sums in `size_t`, a turn waits exactly until
the whole frame is in the buffer. -/

namespace LibConn.WebSocket

open LibConn.Bytes
open LibConn.Peeling

/-- The number of masking bytes behind the length. -/
def maskSize (fh : WsFrameHeader) : ℕ :=
  if fh.mask ≠ 0 then 4 else 0

/-- The declared length keeps `offset + payload_len + 4` within `size_t`. -/
def DeclaredFits (m_buffer : List UInt8) : Prop :=
  2 ≤ m_buffer.length → ∀ offset payload_len,
    frameExtent (headerAt m_buffer) m_buffer = some (offset, payload_len) →
      offset + payload_len + 4 ≤ 2 ^ 64 - 1

/-- The frame that a buffer holds in full: its payload in the clear, and what follows. -/
def frameAt (m_buffer : List UInt8) (offset payload_len : ℕ) : Message × List UInt8 :=
  let fh := headerAt m_buffer
  let start := offset + maskSize fh
  let data := (m_buffer.drop start).take payload_len
  (⟨fh.opcode, if fh.mask ≠ 0 then applyMask (maskKeyAt m_buffer offset) data else data⟩,
    m_buffer.drop (start + payload_len))

theorem frameExtent_offset {fh : WsFrameHeader} {m_buffer : List UInt8} {offset payload_len : ℕ}
    (h : frameExtent fh m_buffer = some (offset, payload_len)) : 2 ≤ offset ∧ offset ≤ 10 := by
  rw [frameExtent] at h
  split_ifs at h <;> simp at h <;> omega

theorem frameExtent_append {fh : WsFrameHeader} {p : List UInt8} {e : ℕ × ℕ} (q : List UInt8)
    (h : frameExtent fh p = some e) : frameExtent fh (p ++ q) = some e := by
  rw [frameExtent] at h ⊢
  split_ifs at h ⊢ with h₁ h₂ h₃ h₄ h₅ h₆ <;> simp_all
  · omega
  · rw [List.drop_append_of_le_length (by omega), List.take_append_of_le_length (by simp; omega)]
    exact h
  · omega
  · rw [List.drop_append_of_le_length (by omega), List.take_append_of_le_length (by simp; omega)]
    exact h

theorem headerAt_append {p : List UInt8} (q : List UInt8) (h : 2 ≤ p.length) :
    headerAt (p ++ q) = headerAt p := by
  unfold headerAt
  rw [List.getD_append _ _ _ _ (by omega), List.getD_append _ _ _ _ (by omega)]

/-! ## Unmasking in place -/

section Unmask

variable {mask : MaskKey} {start payload_len : ℕ} {m_buffer : List UInt8}

@[simp] theorem unmaskInPlace_length :
    (unmaskInPlace mask start payload_len m_buffer).length = m_buffer.length := by
  simp [unmaskInPlace, applyMask]
  omega

theorem unmaskInPlace_payload (h : start + payload_len ≤ m_buffer.length) :
    ((unmaskInPlace mask start payload_len m_buffer).drop start).take payload_len =
      applyMask mask ((m_buffer.drop start).take payload_len) := by
  have htake : (m_buffer.take start).length = start := by simp; omega
  have hdata : (applyMask mask ((m_buffer.drop start).take payload_len)).length =
      payload_len := by
    simp [applyMask]
    omega
  rw [unmaskInPlace, List.append_assoc, List.drop_left' htake, List.take_left' hdata]

theorem unmaskInPlace_take {offset : ℕ} (hle : offset ≤ start) (h : start ≤ m_buffer.length) :
    (unmaskInPlace mask start payload_len m_buffer).take offset = m_buffer.take offset := by
  rw [unmaskInPlace, List.append_assoc, List.take_append_of_le_length, List.take_take,
    Nat.min_eq_left hle]
  rw [List.length_take]
  omega

theorem unmaskInPlace_rest (h : start + payload_len ≤ m_buffer.length) :
    (unmaskInPlace mask start payload_len m_buffer).drop (start + payload_len) =
      m_buffer.drop (start + payload_len) := by
  apply List.drop_left'
  simp [applyMask]
  omega

end Unmask

/-! ## One turn -/

theorem peel_short {m_buffer : List UInt8} (h : m_buffer.length < 2) :
    peel m_buffer = .wait := by
  simp [peel, turn, h]

theorem peel_unknown {m_buffer : List UInt8} (h : 2 ≤ m_buffer.length)
    (he : frameExtent (headerAt m_buffer) m_buffer = none) : peel m_buffer = .wait := by
  simp [peel, turn, Nat.not_lt.mpr h, he]

/-- A turn waits until the whole frame is there, and then takes exactly the frame. -/
theorem peel_known {m_buffer : List UInt8} {offset payload_len : ℕ} (h : 2 ≤ m_buffer.length)
    (he : frameExtent (headerAt m_buffer) m_buffer = some (offset, payload_len))
    (hfit : offset + payload_len + 4 ≤ 2 ^ 64 - 1) :
    peel m_buffer =
      if m_buffer.length < offset + maskSize (headerAt m_buffer) + payload_len then .wait
      else .item (frameAt m_buffer offset payload_len).1
        (frameAt m_buffer offset payload_len).2 := by
  have hsum : sizeAdd offset payload_len = offset + payload_len := Nat.mod_eq_of_lt (by omega)
  have hsum4 : sizeAdd (offset + payload_len) 4 = offset + payload_len + 4 :=
    Nat.mod_eq_of_lt (by omega)
  simp only [peel, turn, Nat.not_lt.mpr h, ite_false, he, hsum, hsum4]
  by_cases hmask : (headerAt m_buffer).mask = 0
  · have hsize : maskSize (headerAt m_buffer) = 0 := by simp [maskSize, hmask]
    by_cases hlen : m_buffer.length < offset + payload_len
    · simp [hsize, hlen]
    · simp [hsize, hlen, hmask, dispatch, frameAt]
  · have hsize : maskSize (headerAt m_buffer) = 4 := by simp [maskSize, hmask]
    by_cases hlen : m_buffer.length < offset + 4 + payload_len
    · have h₁ : m_buffer.length < offset + payload_len + 4 := by omega
      by_cases h₂ : m_buffer.length < offset + payload_len
      · simp [hsize, hlen, h₂]
      · simp [hsize, hlen, hmask, h₁, h₂]
    · have h₁ : ¬ m_buffer.length < offset + payload_len + 4 := by omega
      have h₂ : ¬ m_buffer.length < offset + payload_len := by omega
      have hle : offset + 4 + payload_len ≤ m_buffer.length := by omega
      simp [hsize, hlen, hmask, h₁, h₂, dispatch, frameAt,
        unmaskInPlace_payload hle, unmaskInPlace_rest hle]

/-- A turn that passes on a frame has the whole of it, erases as much, and leaves alone what
stands before and behind the payload. -/
theorem turn_frame_extent {m_buffer unmasked : List UInt8} {message : Message} {consumed : ℕ}
    (h : turn m_buffer = .frame message unmasked consumed) :
    2 ≤ m_buffer.length ∧ ∃ offset payload_len,
      frameExtent (headerAt m_buffer) m_buffer = some (offset, payload_len) ∧
      consumed = offset + maskSize (headerAt m_buffer) + payload_len ∧
      consumed ≤ m_buffer.length ∧ unmasked.length = m_buffer.length ∧
      unmasked.take offset = m_buffer.take offset ∧
      unmasked.drop consumed = m_buffer.drop consumed := by
  rw [turn] at h
  split_ifs at h with h2
  refine ⟨Nat.not_lt.mp h2, ?_⟩
  cases he : frameExtent (headerAt m_buffer) m_buffer with
  | none => simp [he] at h
  | some extent =>
      obtain ⟨offset, payload_len⟩ := extent
      refine ⟨offset, payload_len, rfl, ?_⟩
      simp only [he] at h
      split_ifs at h with hwait hmask hwait4
      · have hsize : maskSize (headerAt m_buffer) = 4 := if_pos hmask
        rw [dispatch] at h
        split_ifs at h with hover
        obtain ⟨-, rfl, rfl⟩ := Turn.frame.inj h
        rw [unmaskInPlace_length] at hover
        exact ⟨by omega, by omega, unmaskInPlace_length, unmaskInPlace_take (by omega) (by omega),
          unmaskInPlace_rest (by omega)⟩
      · have hsize : maskSize (headerAt m_buffer) = 0 := if_neg hmask
        rw [dispatch] at h
        split_ifs at h with hover
        obtain ⟨-, rfl, rfl⟩ := Turn.frame.inj h
        exact ⟨by omega, by omega, rfl, rfl, rfl⟩

theorem turn_frame {m_buffer unmasked : List UInt8} {message : Message} {consumed : ℕ}
    (h : turn m_buffer = .frame message unmasked consumed) :
    2 ≤ consumed ∧ consumed ≤ m_buffer.length ∧ unmasked.length = m_buffer.length := by
  obtain ⟨-, offset, payload_len, he, hconsumed, hle, hlength, -⟩ := turn_frame_extent h
  have hoffset := (frameExtent_offset he).1
  exact ⟨by omega, hle, hlength⟩

theorem peel_eq_wait_iff {m_buffer : List UInt8} :
    peel m_buffer = .wait ↔ turn m_buffer = .wait := by
  rw [peel]
  split <;> simp_all

theorem peel_item_length {m_buffer rest : List UInt8} {message : Message}
    (h : peel m_buffer = .item message rest) : rest.length + 2 ≤ m_buffer.length := by
  rw [peel] at h
  split at h
  · cases h
  · cases h
  · rename_i message' unmasked consumed hturn
    obtain ⟨h2, hle, hlen⟩ := turn_frame hturn
    obtain ⟨-, rfl⟩ := Outcome.item.inj h
    simp only [List.length_drop]
    omega

/-! ## More input -/

theorem frameAt_append {p : List UInt8} {offset payload_len : ℕ} (q : List UInt8)
    (h2 : 2 ≤ p.length) (h : offset + maskSize (headerAt p) + payload_len ≤ p.length) :
    frameAt (p ++ q) offset payload_len =
      ((frameAt p offset payload_len).1, (frameAt p offset payload_len).2 ++ q) := by
  have hkey : (headerAt p).mask ≠ 0 → maskKeyAt (p ++ q) offset = maskKeyAt p offset := by
    intro hmask
    have hsize : maskSize (headerAt p) = 4 := if_pos hmask
    funext i
    exact List.getD_append _ _ _ _ (by omega)
  have hdata : ((p ++ q).drop (offset + maskSize (headerAt p))).take payload_len =
      (p.drop (offset + maskSize (headerAt p))).take payload_len := by
    rw [List.drop_append_of_le_length (by omega),
      List.take_append_of_le_length (by rw [List.length_drop]; omega)]
  have hrest : (p ++ q).drop (offset + maskSize (headerAt p) + payload_len) =
      p.drop (offset + maskSize (headerAt p) + payload_len) ++ q :=
    List.drop_append_of_le_length h
  simp only [frameAt, headerAt_append q h2, hdata, hrest]
  split_ifs with hmask
  · rw [hkey hmask]
  · rfl

theorem extent_of_peel {p : List UInt8} (h : peel p ≠ .wait) :
    2 ≤ p.length ∧ ∃ offset payload_len, frameExtent (headerAt p) p = some (offset, payload_len) ∧
      ∀ q, frameExtent (headerAt (p ++ q)) (p ++ q) = some (offset, payload_len) := by
  have h2 : 2 ≤ p.length := by
    by_contra hshort
    exact h (peel_short (by omega))
  cases he : frameExtent (headerAt p) p with
  | none => exact absurd (peel_unknown h2 he) h
  | some extent =>
      refine ⟨h2, extent.1, extent.2, rfl, fun q => ?_⟩
      rw [headerAt_append q h2]
      exact frameExtent_append q he

theorem peel_extensible : Extensible peel DeclaredFits where
  shrinks p message rest h := by
    have hlen := peel_item_length h
    omega
  item_append p q message rest hfits h := by
    obtain ⟨h2, offset, payload_len, he, he'⟩ := extent_of_peel (p := p) (by simp [h])
    have h2' : 2 ≤ (p ++ q).length := by
      rw [List.length_append]
      omega
    have hfit := hfits h2' offset payload_len (he' q)
    rw [peel_known h2 he hfit] at h
    split_ifs at h with hlen
    obtain ⟨rfl, rfl⟩ := Outcome.item.inj h
    have happ := frameAt_append q h2 (Nat.not_lt.mp hlen)
    have hheader := headerAt_append q h2
    rw [peel_known h2' (he' q) hfit, if_neg (by rw [hheader, List.length_append]; omega), happ]
  ne_fail p q hfits h := by
    obtain ⟨h2, offset, payload_len, he, he'⟩ := extent_of_peel (p := p) (by simp [h])
    have h2' : 2 ≤ (p ++ q).length := by
      rw [List.length_append]
      omega
    rw [peel_known h2 he (hfits h2' offset payload_len (he' q))] at h
    split_ifs at h

/-! ## The loop -/

theorem feedLoop_of_drains {m_buffer rest : List UInt8} {messages : List Message}
    (h : Drains peel m_buffer messages rest) (turns : ℕ) (hturns : m_buffer.length < turns) :
    feedLoop true turns m_buffer = .returned messages rest := by
  induction h generalizing turns with
  | wait hw =>
      obtain ⟨turns, rfl⟩ := Nat.exists_eq_add_one_of_ne_zero (by omega : turns ≠ 0)
      simp [feedLoop, peel_eq_wait_iff.mp hw]
  | item hi _ ih =>
      obtain ⟨turns, rfl⟩ := Nat.exists_eq_add_one_of_ne_zero (by omega : turns ≠ 0)
      have hlen := peel_item_length hi
      have hrest := ih turns (by omega)
      rw [peel] at hi
      split at hi
      · cases hi
      · cases hi
      · rename_i hturn
        obtain ⟨rfl, rfl⟩ := Outcome.item.inj hi
        simp [feedLoop, hturn, hrest, FeedResult.after]

theorem drains_of_feedLoop (turns : ℕ) {m_buffer rest : List UInt8} {messages : List Message}
    (h : feedLoop true turns m_buffer = .returned messages rest) :
    Drains peel m_buffer messages rest := by
  induction turns generalizing m_buffer messages with
  | zero => cases h
  | succ turns ih =>
      simp only [feedLoop, ite_true] at h
      cases hturn : turn m_buffer with
      | wait =>
          rw [hturn] at h
          obtain ⟨rfl, rfl⟩ := FeedResult.returned.inj h
          exact .wait (by simp [peel, hturn])
      | overrun =>
          rw [hturn] at h
          cases h
      | frame message unmasked consumed =>
          rw [hturn] at h
          cases hrec : feedLoop true turns (unmasked.drop consumed) with
          | overrun => simp [hrec, FeedResult.after] at h
          | running => simp [hrec, FeedResult.after] at h
          | returned more rest' =>
              simp only [hrec, FeedResult.after] at h
              obtain ⟨rfl, rfl⟩ := FeedResult.returned.inj h
              exact .item (by simp [peel, hturn]) (ih hrec)

/-- One call of `feedRecvData` drains the buffer with the new bytes behind it. -/
theorem feedRecvData_iff_drains (m_buffer data rest : List UInt8) (messages : List Message) :
    feedRecvData true m_buffer data = .returned messages rest ↔
      Drains peel (m_buffer ++ data) messages rest :=
  ⟨drains_of_feedLoop _, fun h => feedLoop_of_drains h _ (Nat.lt_succ_self _)⟩

/-- Successive calls feed the decoder chunk by chunk. -/
theorem feedChunks_iff_feeds (chunks : List (List UInt8)) (m_buffer rest : List UInt8)
    (messages : List Message) :
    feedChunks true m_buffer chunks = .returned messages rest ↔
      Feeds peel m_buffer chunks messages rest := by
  induction chunks generalizing m_buffer messages with
  | nil =>
      constructor
      · intro h
        obtain ⟨rfl, rfl⟩ := FeedResult.returned.inj h
        exact .nil m_buffer
      · intro h
        cases h
        rfl
  | cons data chunks ih =>
      constructor
      · intro h
        simp only [feedChunks] at h
        split at h
        · rename_i first b hfirst
          split at h
          · rename_i more b' hmore
            obtain ⟨rfl, rfl⟩ := FeedResult.returned.inj h
            exact .cons ((feedRecvData_iff_drains _ _ _ _).mp hfirst) ((ih _ _).mp hmore)
          · rename_i hother
            exact absurd h (hother _ _)
        · rename_i hother
          exact absurd h (hother _ _)
      · intro h
        cases h with
        | cons hd hrest =>
            simp only [feedChunks, (feedRecvData_iff_drains _ _ _ _).mpr hd,
              (ih _ _).mpr hrest]

end LibConn.WebSocket
