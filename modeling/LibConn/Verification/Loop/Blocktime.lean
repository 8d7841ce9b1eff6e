import LibConn.Model.EventLoop

/-! # How long the loop sleeps

The time that is left goes through `int64_t` to `int`. It loses its sign where the deadline has
passed by more than `INT_MAX` milliseconds, which are not quite 25 days. -/

namespace LibConn

/-- The iteration expires the timer at the top when it is due, and otherwise does not sleep
past it. -/
def InTime (deadline now : ℕ) (call : LoopCall) : Prop :=
  (deadline ≤ now → call = .processTimer) ∧
    (now < deadline → ∃ blocktime_ms, call = .dispRun blocktime_ms ∧
      1 ≤ blocktime_ms ∧ blocktime_ms ≤ min 10 (deadline - now))

/-- The time that is left, or that has gone by, keeps its sign in the conversions. -/
def KeepsSign (deadline now : ℕ) : Prop :=
  if deadline ≤ now then now - deadline ≤ 2 ^ 63 ∧ (now - deadline) % 2 ^ 32 ≤ 2 ^ 31
  else
    deadline - now < 2 ^ 63 ∨
      (1 ≤ (deadline - now) % 2 ^ 32 ∧ (deadline - now) % 2 ^ 32 ≤ 10)
  deriving Decidable

/-- `blocktime_ms` for a deadline at the top. -/
def blocktimeTo (deadline now : ℕ) : ℤ :=
  let min_timeout := int64 (u64 (deadline - now))
  int32 (if min_timeout < 10 then min_timeout else 10)

section Conversions

variable {deadline now : ℕ}

theorem min_timeout_eq (hdeadline : deadline < 2 ^ 64) (hnow : now < 2 ^ 64) :
    int64 (u64 (deadline - now)) =
      if (deadline : ℤ) - now < -2 ^ 63 then (deadline : ℤ) - now + 2 ^ 64
      else if (deadline : ℤ) - now < 2 ^ 63 then (deadline : ℤ) - now
      else (deadline : ℤ) - now - 2 ^ 64 := by
  rw [int64, u64, Int.bmod_def]
  omega

/-- A due timer is noticed exactly when the sign survives. -/
theorem blocktimeTo_nonpos_iff (hnow : now < 2 ^ 64) (h : deadline ≤ now) :
    blocktimeTo deadline now ≤ 0 ↔
      now - deadline ≤ 2 ^ 63 ∧ (now - deadline) % 2 ^ 32 ≤ 2 ^ 31 := by
  have hmin := min_timeout_eq (h.trans_lt hnow) hnow
  simp only [blocktimeTo, hmin, int32, Int.bmod_def]
  split_ifs <;> omega

/-- A timer that is not due is waited for exactly when the sign survives, or the low half of
the time left happens to be short. -/
theorem blocktimeTo_mem_iff (hdeadline : deadline < 2 ^ 64) (h : now < deadline) :
    1 ≤ blocktimeTo deadline now ∧ blocktimeTo deadline now ≤ min 10 (deadline - now) ↔
      deadline - now < 2 ^ 63 ∨
        (1 ≤ (deadline - now) % 2 ^ 32 ∧ (deadline - now) % 2 ^ 32 ≤ 10) := by
  have hmin := min_timeout_eq hdeadline (h.trans hdeadline)
  simp only [blocktimeTo, hmin, int32, Int.bmod_def]
  split_ifs <;> omega

end Conversions

theorem eventLoopTurn_top {loop : Loop} {t : ℕ} (now : ℕ) (hnum : 0 < loop.timers_num)
    (htop : heapTop loop.timers = some t) :
    (eventLoopTurn loop now).1 =
      if blocktimeTo (loop.timer t).next_timeout now ≤ 0 then .processTimer
      else .dispRun (blocktimeTo (loop.timer t).next_timeout now) := by
  have hblock : blocktimeMs (updateLoopTimer loop now) =
      blocktimeTo (loop.timer t).next_timeout now := by
    have htop' : heapTop (updateLoopTimer loop now).timers = some t := htop
    rw [blocktimeMs, htop']
    rfl
  simp only [eventLoopTurn, if_pos hnum, hblock]
  split_ifs <;> rfl

/-- The loop is in time for the timer at the top exactly when the time left keeps its sign. -/
theorem inTime_iff {loop : Loop} {t now : ℕ} (hnum : 0 < loop.timers_num)
    (htop : heapTop loop.timers = some t) (hdeadline : (loop.timer t).next_timeout < 2 ^ 64)
    (hnow : now < 2 ^ 64) :
    InTime (loop.timer t).next_timeout now (eventLoopTurn loop now).1 ↔
      KeepsSign (loop.timer t).next_timeout now := by
  rw [eventLoopTurn_top now hnum htop]
  generalize (loop.timer t).next_timeout = deadline at hdeadline ⊢
  rcases Nat.lt_or_ge now deadline with hlater | hdue
  · have hiff := blocktimeTo_mem_iff hdeadline hlater
    rw [KeepsSign, if_neg hlater.not_ge, ← hiff]
    constructor
    · intro h
      obtain ⟨ms, hcall, hlow, hhigh⟩ := h.2 hlater
      split_ifs at hcall
      obtain rfl := LoopCall.dispRun.inj hcall
      exact ⟨hlow, hhigh⟩
    · intro hmem
      rw [if_neg (Int.not_le.mpr (Int.lt_of_lt_of_le Int.zero_lt_one hmem.1))]
      exact ⟨fun hdue => absurd hlater hdue.not_gt, fun _ => ⟨_, rfl, hmem⟩⟩
  · have hiff := blocktimeTo_nonpos_iff hnow hdue
    rw [KeepsSign, if_pos hdue, ← hiff]
    constructor
    · intro h
      have hcall := h.1 hdue
      by_contra hpos
      rw [if_neg hpos] at hcall
      cases hcall
    · intro hnonpos
      rw [if_pos hnonpos]
      exact ⟨fun _ => rfl, fun hlater => absurd hdue hlater.not_ge⟩

/-- A loop with one timer, set for 10. -/
def oneTimer : Loop :=
  (addTimer (loopInit 0 0 (fun _ => Timer.zero) fun _ => none) 10 (some (.user 0)) 0 0 (some 7)).2

theorem inTime_oneTimer : InTime 10 12 (eventLoopTurn oneTimer 12).1 :=
  (@inTime_iff oneTimer 7 12 (by decide) (by decide) (by decide) (by decide)).mpr (by decide)

/-- The clock is set forward by 25 days, and the loop sleeps for another 24. -/
theorem not_inTime_oneTimer :
    (eventLoopTurn oneTimer 2160000000).1 = .dispRun 2134967306 ∧
      ¬ InTime 10 2160000000 (eventLoopTurn oneTimer 2160000000).1 := by
  have hcall : (eventLoopTurn oneTimer 2160000000).1 = .dispRun 2134967306 := by decide +kernel
  refine ⟨hcall, fun h => ?_⟩
  have hexpires := h.1 (by decide)
  rw [hcall] at hexpires
  cases hexpires

end LibConn
