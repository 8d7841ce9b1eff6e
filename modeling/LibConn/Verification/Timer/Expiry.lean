import LibConn.Model.TimerSystem

/-! # Expiry is a run

Whatever the callbacks do, what `process_timer` and `process_pending_event` leave is also
left by a run of single actions. What holds along all runs therefore holds around them. -/

namespace LibConn

open LibConn.Run

variable {callback : TimerSystem → ℕ → List TimerAction}

theorem runCallback_run {s t : TimerSystem} {timer : ℕ}
    (h : runCallback callback s timer = some t) : ∃ run, exec TimerSystem.step s run = some t := by
  rw [runCallback] at h
  split_ifs at h
  · exact ⟨[], h⟩
  · exact ⟨_, h⟩

theorem processTimer_run {fuel : ℕ} {s t : TimerSystem}
    (h : processTimer callback fuel s = some t) : ∃ run, exec TimerSystem.step s run = some t := by
  induction fuel generalizing s with
  | zero => simp [processTimer] at h
  | succ fuel ih =>
      cases hturn : processTimerTurn s.loop with
      | fault => simp [processTimer, hturn] at h
      | stop =>
          simp only [processTimer, hturn] at h
          exact ⟨[], h⟩
      | last timer loop =>
          simp only [processTimer, hturn] at h
          obtain ⟨run, hrun⟩ := ih h
          exact ⟨.expire :: run, by simpa [exec, TimerSystem.step, hturn] using hrun⟩
      | again timer loop =>
          simp only [processTimer, hturn, Option.bind_eq_some_iff] at h
          obtain ⟨u, hcallback, h⟩ := h
          obtain ⟨first, hfirst⟩ := runCallback_run hcallback
          obtain ⟨rest, hrest⟩ := ih h
          refine ⟨.expire :: (first ++ rest), ?_⟩
          simpa [exec, TimerSystem.step, hturn, exec_append, hfirst] using hrest

theorem processPendingEvent_run {fuel : ℕ} {cur : Option ℕ} {s t : TimerSystem}
    (h : processPendingEvent callback fuel cur s = some t) :
    ∃ run, exec TimerSystem.step s run = some t := by
  induction fuel generalizing cur s with
  | zero =>
      cases cur with
      | none =>
          exact ⟨[.pendingEnd], by simpa [processPendingEvent, exec, TimerSystem.step] using h⟩
      | some cur => simp [processPendingEvent] at h
  | succ fuel ih =>
      cases cur with
      | none =>
          exact ⟨[.pendingEnd], by simpa [processPendingEvent, exec, TimerSystem.step] using h⟩
      | some cur =>
          simp only [processPendingEvent] at h
          split_ifs at h
          · exact ih h
          · obtain ⟨u, hcallback, h⟩ := Option.bind_eq_some_iff.mp h
            obtain ⟨rest, hrest⟩ := ih h
            refine ⟨callback s cur ++ .pendingDone cur :: rest, ?_⟩
            simpa [exec_append, hcallback, exec, TimerSystem.step] using hrest

end LibConn
