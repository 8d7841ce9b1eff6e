import LibConn.Verification.WebSocket.Decoding

/-! # Decoding does not depend on how the stream is cut -/

namespace LibConn.WebSocket

open LibConn.Peeling

/-- Whatever earlier calls left in the buffer, a stream whose declared lengths fit
`size_t` gives the same messages and the same rest in one call as in many. -/
theorem feedChunks_eq_feedRecvData (earlier chunks : List (List UInt8))
    (delivered : List Message) (m_buffer : List UInt8)
    (hearlier : feedChunks true [] earlier = .returned delivered m_buffer)
    (hfits : Throughout peel DeclaredFits (m_buffer ++ chunks.flatten)) :
    ∃ messages rest,
      feedChunks true m_buffer chunks = .returned messages rest ∧
      feedRecvData true m_buffer chunks.flatten = .returned messages rest := by
  have hwait : peel m_buffer = .wait := by
    have hfeeds := (feedChunks_iff_feeds _ _ _ _).mp hearlier
    exact hfeeds.waits (peel_short (by simp))
  obtain ⟨messages, rest, hdrains, -⟩ :=
    peel_extensible.exists_drains (m_buffer ++ chunks.flatten) [] (by simpa using hfits)
  refine ⟨messages, rest, ?_, (feedRecvData_iff_drains _ _ _ _).mpr hdrains⟩
  apply (feedChunks_iff_feeds _ _ _ _).mpr
  exact (peel_extensible.feeds_iff_drains chunks m_buffer rest messages hwait hfits).mpr hdrains

/-- A text frame cut inside its header and again before its last byte. -/
theorem feedChunks_eq_feedRecvData_hi :
    ∃ messages rest,
      feedChunks true [0x81] [[0x02, 0x68], [], [0x69]] = .returned messages rest ∧
      feedRecvData true [0x81] [[0x02, 0x68], [], [0x69]].flatten = .returned messages rest := by
  apply feedChunks_eq_feedRecvData [[0x81]] _ [] [0x81] (by decide)
  have hfits : ∀ b : List UInt8, (headerAt b).payload_len < 126 → DeclaredFits b := by
    intro b hb _ offset payload_len he
    simp only [frameExtent, hb, ite_true, Option.some.injEq, Prod.mk.injEq] at he
    have hlt := (headerAt b).payload_len.toNat_lt
    omega
  have hitem : peel ([0x81] ++ [[0x02, 0x68], [], [0x69]].flatten) =
      .item ⟨1, [0x68, 0x69]⟩ [] := rfl
  refine .item (hfits _ (by decide)) hitem ?_
  exact .wait (hfits _ (by decide)) rfl

end LibConn.WebSocket
