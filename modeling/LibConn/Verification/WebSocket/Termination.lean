import LibConn.Verification.WebSocket.Bounds
import Mathlib.Logic.Relation

/-! # The loop of `feedRecvData` ends

The only `erase` stands under `if (onMessage)`: a whole frame stays in the buffer as long as
the callback is not set, and the next turn finds it there again. -/

namespace LibConn.WebSocket

open LibConn.Peeling

/-- The buffer that the next turn of the loop finds, where a turn neither returns nor leaves
the buffer. -/
def nextBuffer (onMessage : Bool) (m_buffer : List UInt8) : Option (List UInt8) :=
  match turn m_buffer with
  | .wait => none
  | .overrun => none
  | .frame _ unmasked consumed =>
      some (if onMessage then unmasked.drop consumed else unmasked)

/-- The loop returns, and each of its turns returns or removes at least two bytes. -/
structure Terminates (onMessage : Bool) (m_buffer : List UInt8) : Prop where
  returns : ∃ turns messages rest, feedLoop onMessage turns m_buffer = .returned messages rest
  removes : ∀ b, Relation.ReflTransGen (fun p q => nextBuffer onMessage p = some q) m_buffer b →
    turn b = .wait ∨ ∃ q, nextBuffer onMessage b = some q ∧ q.length + 2 ≤ b.length

/-- A whole frame is at the front of the buffer, and is `size` bytes long. -/
def HoldsFrame (m_buffer : List UInt8) (size : ℕ) : Prop :=
  2 ≤ m_buffer.length ∧ ∃ offset payload_len,
    frameExtent (headerAt m_buffer) m_buffer = some (offset, payload_len) ∧
      size = offset + maskSize (headerAt m_buffer) + payload_len ∧ size ≤ m_buffer.length

/-- The first frame is not all there, and does not wrap past the size checks either. -/
def Waits (m_buffer : List UInt8) : Prop :=
  ¬ WrapsPast m_buffer ∧ ∀ size, ¬ HoldsFrame m_buffer size

/-- What stands behind the whole frames waits. -/
inductive EndsWaiting : List UInt8 → Prop where
  | waits {m_buffer} : Waits m_buffer → EndsWaiting m_buffer
  | frame {m_buffer size} : HoldsFrame m_buffer size → EndsWaiting (m_buffer.drop size) →
      EndsWaiting m_buffer

/-- With `onMessage` set the frames are removed; without it the first one must not be
there. -/
def Ends (onMessage : Bool) (m_buffer : List UInt8) : Prop :=
  if onMessage then EndsWaiting m_buffer else Waits m_buffer

/-! ## One turn -/

section Turn

variable {m_buffer unmasked : List UInt8} {message : Message} {consumed size : ℕ}

theorem turn_frame_holds (h : turn m_buffer = .frame message unmasked consumed) :
    HoldsFrame m_buffer consumed := by
  obtain ⟨h2, offset, payload_len, he, hconsumed, hle, -⟩ := turn_frame_extent h
  exact ⟨h2, offset, payload_len, he, hconsumed, hle⟩

theorem HoldsFrame.turn_eq (hsize : m_buffer.length < 2 ^ 63) (h : HoldsFrame m_buffer size) :
    ∃ message unmasked, turn m_buffer = .frame message unmasked size := by
  obtain ⟨h2, offset, payload_len, he, rfl, hle⟩ := h
  have hpeel := peel_known h2 he (by omega)
  rw [if_neg (Nat.not_lt.mpr hle)] at hpeel
  cases hturn : turn m_buffer with
  | wait => simp [peel, hturn] at hpeel
  | overrun => simp [peel, hturn] at hpeel
  | frame message unmasked consumed =>
      obtain ⟨-, offset', payload_len', he', hconsumed, -⟩ := turn_frame_extent hturn
      obtain ⟨rfl, rfl⟩ := Prod.mk.inj (Option.some.inj (he'.symm.trans he))
      exact ⟨message, unmasked, by rw [hconsumed]⟩

theorem turn_wait_iff (hsize : m_buffer.length < 2 ^ 63) :
    turn m_buffer = .wait ↔ Waits m_buffer := by
  constructor
  · intro hturn
    refine ⟨fun hwraps => ?_, fun size hframe => ?_⟩
    · rw [(turn_overrun_iff hsize).mpr hwraps] at hturn
      cases hturn
    · obtain ⟨message, unmasked, hturn'⟩ := hframe.turn_eq hsize
      rw [hturn'] at hturn
      cases hturn
  · rintro ⟨hwraps, hframes⟩
    cases hturn : turn m_buffer with
    | wait => rfl
    | overrun => exact absurd ((turn_overrun_iff hsize).mp hturn) hwraps
    | frame message unmasked consumed =>
        exact absurd (turn_frame_holds hturn) (hframes consumed)

theorem nextBuffer_some {onMessage : Bool} {b : List UInt8}
    (h : nextBuffer onMessage m_buffer = some b) :
    ∃ message unmasked consumed, turn m_buffer = .frame message unmasked consumed ∧
      b = if onMessage then unmasked.drop consumed else unmasked := by
  rw [nextBuffer] at h
  cases hturn : turn m_buffer with
  | wait => simp [hturn] at h
  | overrun => simp [hturn] at h
  | frame message unmasked consumed =>
      simp only [hturn, Option.some.injEq] at h
      exact ⟨message, unmasked, consumed, rfl, h.symm⟩

end Turn

/-! ## With a callback -/

section Set

variable {m_buffer : List UInt8}

theorem EndsWaiting.of_drains {rest : List UInt8} {messages : List Message}
    (hsize : m_buffer.length < 2 ^ 63) (h : Drains peel m_buffer messages rest) :
    EndsWaiting m_buffer := by
  induction h with
  | wait hw => exact .waits ((turn_wait_iff hsize).mp (peel_eq_wait_iff.mp hw))
  | @item b x rest' xs b' hi _ ih =>
      have hshrinks := peel_item_length hi
      cases hturn : turn b with
      | wait => simp [peel, hturn] at hi
      | overrun => simp [peel, hturn] at hi
      | frame message unmasked consumed =>
          simp only [peel, hturn, Outcome.item.injEq] at hi
          obtain ⟨-, offset, payload_len, -, -, -, -, -, hdrop⟩ := turn_frame_extent hturn
          refine .frame (turn_frame_holds hturn) ?_
          rw [← hdrop, hi.2]
          exact ih (by omega)

theorem EndsWaiting.drains (hsize : m_buffer.length < 2 ^ 63) (h : EndsWaiting m_buffer) :
    ∃ messages rest, Drains peel m_buffer messages rest := by
  induction h with
  | waits hw => exact ⟨[], _, .wait (peel_eq_wait_iff.mpr ((turn_wait_iff hsize).mpr hw))⟩
  | @frame b size hframe _ ih =>
      obtain ⟨messages, rest, hdrains⟩ := ih (by rw [List.length_drop]; omega)
      obtain ⟨message, unmasked, hturn⟩ := hframe.turn_eq hsize
      obtain ⟨-, offset, payload_len, -, -, -, -, -, hdrop⟩ := turn_frame_extent hturn
      exact ⟨message :: messages, rest, .item (by simp [peel, hturn]) (hdrop ▸ hdrains)⟩

/-- Each turn removes a frame, which is two bytes at least, and leaves a buffer that ends
in the same way. -/
theorem EndsWaiting.removes {b : List UInt8} (hsize : m_buffer.length < 2 ^ 63)
    (h : EndsWaiting m_buffer)
    (hreaches : Relation.ReflTransGen (fun p q => nextBuffer true p = some q) m_buffer b) :
    turn b = .wait ∨ ∃ q, nextBuffer true b = some q ∧ q.length + 2 ≤ b.length := by
  have hkeeps : b.length < 2 ^ 63 ∧ EndsWaiting b := by
    induction hreaches with
    | refl => exact ⟨hsize, h⟩
    | tail _ hnext ih =>
        obtain ⟨hsize', hends⟩ := ih
        obtain ⟨message, unmasked, consumed, hturn, rfl⟩ := nextBuffer_some hnext
        obtain ⟨-, offset, payload_len, -, -, -, hlength, -, hdrop⟩ := turn_frame_extent hturn
        rw [if_pos rfl]
        refine ⟨by rw [List.length_drop]; omega, ?_⟩
        cases hends with
        | waits hw =>
            rw [(turn_wait_iff hsize').mpr hw] at hturn
            cases hturn
        | frame hframe hrest =>
            obtain ⟨message', unmasked', hturn'⟩ := hframe.turn_eq hsize'
            obtain ⟨rfl, rfl, rfl⟩ := Turn.frame.inj (hturn.symm.trans hturn')
            rw [hdrop]
            exact hrest
  obtain ⟨hsize', hends⟩ := hkeeps
  cases hends with
  | waits hw => exact .inl ((turn_wait_iff hsize').mpr hw)
  | @frame _ size hframe _ =>
      obtain ⟨message, unmasked, hturn⟩ := hframe.turn_eq hsize'
      obtain ⟨h2, hle, hlength⟩ := turn_frame hturn
      refine .inr ⟨unmasked.drop size, by simp [nextBuffer, hturn], ?_⟩
      rw [List.length_drop]
      omega

end Set

/-! ## Without a callback -/

section Unset

variable {m_buffer : List UInt8} {size : ℕ}

theorem HoldsFrame.unmasked {unmasked : List UInt8} {message : Message} {consumed : ℕ}
    (h : turn m_buffer = .frame message unmasked consumed) : HoldsFrame unmasked consumed := by
  obtain ⟨h2, offset, payload_len, he, hconsumed, hle, hlength, htake, -⟩ := turn_frame_extent h
  have hheader := headerAt_congr (frameExtent_offset he).1 htake
  rw [HoldsFrame, hheader, hlength]
  exact ⟨h2, offset, payload_len, frameExtent_congr he hlength htake, hconsumed, hle⟩

/-- The loop never returns while a whole frame is in the buffer. -/
theorem HoldsFrame.never_returns (hsize : m_buffer.length < 2 ^ 63)
    (h : HoldsFrame m_buffer size) (turns : ℕ) (messages : List Message) (rest : List UInt8) :
    feedLoop false turns m_buffer ≠ .returned messages rest := by
  induction turns generalizing m_buffer with
  | zero => simp [feedLoop]
  | succ turns ih =>
      obtain ⟨message, unmasked, hturn⟩ := h.turn_eq hsize
      have hlength := (turn_frame hturn).2.2
      simp only [feedLoop, hturn, Bool.false_eq_true, if_false]
      exact ih (hlength ▸ hsize) (.unmasked hturn)

end Unset

/-! ## The loop -/

/-- The loop ends exactly where, with a callback, what stands behind the whole frames waits,
and without one the buffer waits from the start. -/
theorem terminates_iff (onMessage : Bool) (m_buffer data : List UInt8)
    (hsize : (m_buffer ++ data).length < 2 ^ 63) :
    Terminates onMessage (m_buffer ++ data) ↔ Ends onMessage (m_buffer ++ data) := by
  generalize m_buffer ++ data = b at *
  cases onMessage with
  | true =>
      rw [Ends, if_pos rfl]
      constructor
      · rintro ⟨⟨turns, messages, rest, hreturns⟩, -⟩
        exact .of_drains hsize (drains_of_feedLoop turns hreturns)
      · intro h
        obtain ⟨messages, rest, hdrains⟩ := h.drains hsize
        exact ⟨⟨b.length + 1, messages, rest, feedLoop_of_drains hdrains _ (Nat.lt_succ_self _)⟩,
          fun _ hreaches => h.removes hsize hreaches⟩
  | false =>
      rw [Ends, if_neg Bool.false_ne_true, ← turn_wait_iff hsize]
      constructor
      · rintro ⟨⟨turns, messages, rest, hreturns⟩, hremoves⟩
        rcases hremoves b .refl with hwait | ⟨q, hnext, hshorter⟩
        · exact hwait
        · obtain ⟨message, unmasked, consumed, hturn, -⟩ := nextBuffer_some hnext
          exact absurd hreturns ((turn_frame_holds hturn).never_returns hsize turns messages rest)
      · intro hwait
        refine ⟨⟨1, [], b, by simp [feedLoop, hwait]⟩, fun b' hreaches => .inl ?_⟩
        rcases Relation.ReflTransGen.cases_head hreaches with rfl | ⟨q, hnext, -⟩
        · exact hwait
        · simp [nextBuffer, hwait] at hnext

/-- A text frame of two bytes is removed, and the empty buffer waits. -/
theorem terminates_text : Terminates true ([] ++ [0x81, 0x02, 0x68, 0x69]) := by
  have hframe : HoldsFrame [0x81, 0x02, 0x68, 0x69] 4 :=
    ⟨by decide, 2, 2, rfl, rfl, by decide⟩
  have hrest : Waits [] := ⟨fun h => absurd h.1 (by decide), fun _ h => absurd h.1 (by decide)⟩
  exact (terminates_iff true [] [0x81, 0x02, 0x68, 0x69] (by decide)).mpr
    (.frame hframe (.waits hrest))

/-- An empty text frame is looked at forever. -/
theorem not_terminates_unset : ¬ Terminates false ([] ++ [0x81, 0x00]) := by
  intro h
  obtain ⟨turns, messages, rest, hreturns⟩ := h.returns
  have hturn : turn [0x81, 0x00] = .frame ⟨1, []⟩ [0x81, 0x00] 2 := rfl
  exact (turn_frame_holds hturn).never_returns (by decide) turns messages rest hreturns

end LibConn.WebSocket
