import LibConn.Model.HttpSending
import LibConn.Verification.Io.Stream

/-! # The request goes out as it is

`exec` adds what `send_data` returns to its position, also where that is -1. The request is sent
exactly where no `send` fails and the position fits an `int`. -/

namespace LibConn.Http

open LibConn.Run

/-- Only ranges of the string are given to `send`, what was taken when the loop is left is the
string, and where `send` has failed for good the socket is closed and -1 returned. -/
structure SentExactly (s : Sending) : Prop where
  inside : ∀ range ∈ s.ranges, 0 ≤ range.1 ∧ range.1 + range.2 ≤ s.data.bytes.length
  all : s.stage = .receiving → s.accepted = s.data.bytes
  shut : s.failed = true → s.stage = .returned (-1) ∧ s.closed = true

/-- `send` does not fail, unless `exec` gives up at once where it may be tried again, and the
position fits an `int`. -/
def SendGuard (s : Sending) (r : SendResult) : Prop :=
  if r.ret = -1 then r.errno.again = true ∧ r.timedOut = true
  else r.timedOut = true ∨ s.have_send_len + r.ret < 2 ^ 31

instance decidableSendGuard (s : Sending) (r : SendResult) : Decidable (SendGuard s r) :=
  inferInstanceAs (Decidable (if r.ret = -1 then r.errno.again = true ∧ r.timedOut = true
    else r.timedOut = true ∨ s.have_send_len + r.ret < 2 ^ 31))

/-- The position is where the bytes that were taken end, and nothing has failed. -/
structure SendsOn (s : Sending) : Prop where
  inside : ∀ range ∈ s.ranges, 0 ≤ range.1 ∧ range.1 + range.2 ≤ s.data.bytes.length
  all : s.stage = .receiving → s.accepted = s.data.bytes
  position : s.stage = .sending → ∃ n : ℕ, s.have_send_len = n ∧ n ≤ s.data.bytes.length ∧
    s.accepted = s.data.bytes.take n
  unfailed : s.failed = false

variable {around : ℤ → UInt8} {s t : Sending} {r : SendResult} {run : List SendResult}

theorem SendsOn.exactly (h : SendsOn s) : SentExactly s :=
  ⟨h.inside, h.all, fun hfailed => absurd (h.unfailed.symm.trans hfailed) (by simp)⟩

theorem Sending.taken_eq {n k : ℕ} (hposition : s.have_send_len = n)
    (hinside : n + k ≤ s.data.bytes.length) :
    s.taken around k = (s.data.bytes.drop n).take k := by
  apply List.ext_getElem
  · simp only [Sending.taken, List.length_map, List.length_range, List.length_take,
      List.length_drop]
    omega
  · intro i hi _
    have hik : i < k := by simpa [Sending.taken] using hi
    have hpos : (0 : ℤ) ≤ n + i := by omega
    have hnat : ((n : ℤ) + i).toNat = n + i := by omega
    simp only [Sending.taken, List.getElem_map, List.getElem_range, List.getElem_take,
      List.getElem_drop, Sending.byteAt, hposition, if_pos hpos, hnat]
    have hlt : n + i < s.data.bytes.length := by omega
    rw [List.getD_eq_getElem?_getD, List.getElem?_eq_getElem hlt, Option.getD_some]

theorem Sending.test_eq (s : Sending) :
    s.test =
      { s with
        stage := if u64 s.have_send_len = s.data.bytes.length then .receiving else s.stage } := by
  rw [Sending.test]
  by_cases hlen : u64 s.have_send_len = s.data.bytes.length
  · rw [if_pos hlen, if_pos hlen]
  · rw [if_neg hlen, if_neg hlen]

theorem Sending.step_some (h : s.step around r = some t) :
    s.stage = .sending ∧ s.legal r ∧
      t.data = s.data ∧
      t.ranges = s.ranges ++ [(s.have_send_len, s.rest)] ∧
      t.accepted = s.accepted ++ s.taken around r.ret.toNat ∧
      t.failed = (s.failed || (r.ret = -1 && !r.errno.again)) ∧
      (r.timedOut = true ∧ t.stage = .returned (-1) ∨
        r.timedOut = false ∧ t.have_send_len = int32 (s.have_send_len + int32 r.ret) ∧
          t.stage =
            if u64 t.have_send_len = s.data.bytes.length then .receiving else .sending) := by
  rw [Sending.step, Option.ite_none_right_eq_some] at h
  obtain ⟨⟨hstage, hlegal⟩, h⟩ := h
  refine ⟨hstage, hlegal, ?_⟩
  cases htimedOut : r.timedOut with
  | true =>
      rw [htimedOut] at h
      obtain rfl := Option.some.inj h
      exact ⟨rfl, rfl, rfl, rfl, .inl ⟨rfl, rfl⟩⟩
  | false =>
      rw [htimedOut] at h
      obtain rfl := Option.some.inj h
      rw [Sending.test_eq]
      refine ⟨rfl, rfl, rfl, rfl, .inr ⟨rfl, rfl, ?_⟩⟩
      dsimp only
      rw [hstage]

theorem Sending.step_sends {n : ℕ} (hposition : s.have_send_len = n)
    (hinside : n ≤ s.data.bytes.length) (hlegal : s.legal r) (around : ℤ → UInt8) :
    s.rest = s.data.bytes.length - n ∧ n + r.ret.toNat ≤ s.data.bytes.length ∧
      s.taken around r.ret.toNat = (s.data.bytes.drop n).take r.ret.toNat := by
  have hsize := s.data.size_lt
  have hrest : s.rest = s.data.bytes.length - n := by
    rw [Sending.rest, hposition, u64]
    omega
  have hcount : n + r.ret.toNat ≤ s.data.bytes.length := by
    rcases hlegal with hfail | ⟨hret, hle⟩ <;> omega
  exact ⟨hrest, hcount, Sending.taken_eq hposition hcount⟩

theorem SendsOn.step (h : SendsOn s) (hguard : SendGuard s r) (ht : s.step around r = some t) :
    SendsOn t := by
  obtain ⟨hstage, hlegal, hdata, hranges, haccepted, hfailed, hnext⟩ := Sending.step_some ht
  obtain ⟨n, hposition, hinside, htaken⟩ := h.position hstage
  obtain ⟨hrest, hcount, hbytes⟩ := Sending.step_sends hposition hinside hlegal around
  have hsize := s.data.size_lt
  have hsofar : t.accepted = s.data.bytes.take (n + r.ret.toNat) := by
    rw [haccepted, htaken, hbytes, List.take_add]
  refine ⟨?inside, ?all, ?position, ?unfailed⟩
  case inside =>
    intro range hrange
    rw [hranges, List.mem_append, List.mem_singleton] at hrange
    rw [hdata]
    rcases hrange with hrange | rfl
    · exact h.inside range hrange
    · rw [hposition, hrest]
      omega
  case unfailed =>
    rw [hfailed, h.unfailed]
    by_cases hfail : r.ret = -1
    · rw [SendGuard, if_pos hfail] at hguard
      simp [hguard.1]
    · simp [hfail]
  all_goals
    intro hreached
    rcases hnext with ⟨-, hreturned⟩ | ⟨htime, hlen, hstaged⟩
    · rw [hreturned] at hreached
      exact absurd hreached (by simp)
    have hret : r.ret ≠ -1 := by
      intro hfail
      rw [SendGuard, if_pos hfail, htime] at hguard
      exact absurd hguard.2 (by simp)
    rw [SendGuard, if_neg hret, htime, hposition] at hguard
    have hlow : 0 ≤ r.ret := (hlegal.resolve_left hret).1
    have hhigh : (n : ℤ) + r.ret < 2 ^ 31 := hguard.resolve_left (by simp)
    have hadvance : t.have_send_len = (n + r.ret.toNat : ℕ) := by
      rw [hlen, hposition, int32_of_lt (n := r.ret) (by omega) (by omega),
        int32_of_lt (by omega) hhigh]
      omega
  case all =>
    rw [hstaged, ite_eq_left_iff] at hreached
    have hend : u64 t.have_send_len = s.data.bytes.length := by
      by_contra hne
      exact absurd (hreached hne) (by simp)
    rw [hadvance, u64_of_lt (by omega)] at hend
    rw [hsofar, hdata, hend, List.take_length]
  case position =>
    exact ⟨_, hadvance, by rw [hdata]; exact hcount, by rw [hsofar, hdata]⟩

theorem SendsOn.start (data : Payload) : SendsOn (.start data) := by
  rw [Sending.start]
  dsimp only
  split_ifs with hempty
  · exact ⟨by simp, by simp, by simp, rfl⟩
  · have hlen : data.bytes.length ≠ 0 := by simpa using hempty
    rw [Sending.test, if_neg (by simpa [u64] using hlen.symm)]
    exact ⟨by simp, by simp, fun _ => ⟨0, rfl, Nat.zero_le _, rfl⟩, rfl⟩

/-- Where no `send` fails, `exec` sends the request as it is. -/
theorem sentExactly_along (around : ℤ → UInt8) (data : Payload) (run : List SendResult)
    (h : Meets (Sending.step around) SendGuard (.start data) run) :
    Along (Sending.step around) SentExactly (.start data) run := by
  have halong : Along (Sending.step around) SendsOn (.start data) run :=
    along_of_meets (fun _ _ _ hs hguard ht => SendsOn.step hs hguard ht) (SendsOn.start data) h
  exact halong.mono fun _ hs => hs.exactly

/-- Three bytes that go out in two parts. -/
theorem sentExactly_parts :
    Along (Sending.step fun _ => 0) SentExactly (.start ⟨[71, 69, 84], by decide⟩)
      [⟨2, .other, false⟩, ⟨1, .other, false⟩] :=
  sentExactly_along _ _ _ (by decide)

/-- After a `send` that would block, `exec` sends from the byte before the string. -/
theorem not_sentExactly_again :
    ¬ Along (Sending.step fun _ => 0) SentExactly (.start ⟨[71, 69, 84], by decide⟩)
      [⟨-1, .eagain, false⟩, ⟨4, .other, false⟩] := by
  intro h
  have hinside := (h.exec (Option.some_get (by decide)).symm).inside (-1, 4)
  revert hinside
  decide

end LibConn.Http
