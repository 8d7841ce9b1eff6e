import LibConn.Verification.Timer.Firing

/-! # In which order the callbacks run

`process_timer` calls the timers that go on on the spot, in the order of the heap. The others
are pushed to the front of the pending list, so `process_pending_event` calls them in the
opposite order. -/

namespace LibConn

open LibConn.Run

/-- The callbacks run in the order of the deadlines at which their timers expired. -/
def CalledInOrder (s : FiringSystem) : Prop :=
  s.log.Pairwise fun call call' => call.deadline ≤ call'.deadline

/-- First come those that `process_timer` calls, in the order of their deadlines, then those
of the pending list, the latest deadline first. -/
def CalledInTwoParts (s : FiringSystem) : Prop :=
  ∃ spot deferred : List ℕ, s.log = spot.map (.mk false) ++ deferred.map (.mk true) ∧
    spot.Pairwise (· ≤ ·) ∧ deferred.Pairwise (· ≥ ·)

/-- The deadline that an operation gives to a timer. -/
def FiringSystem.opDeadline (s : FiringSystem) : TimerOp → Option ℕ
  | .addTimer timeout _ _ now _ => some (u64 (now + timeout))
  | .resetTimer _ timeout => some (u64 (s.loop.cur_ms + timeout))
  | _ => none

/-- In a callback that `process_timer` has called. -/
def Stage.isFiring : Stage → Bool
  | .firing _ => true
  | _ => false

/-- `process_timer` is called when the pending list has been processed, as `event_loop_run`
does, and `reset_timer` takes no other timer out of the heap. A callback gives no timer a
deadline before those that have expired, and neither does arming a timer again. -/
def OrderGuard (s : FiringSystem) : FiringAction → Prop
  | .op op => KeepsTop s (.op op) ∧ (s.stage.isFiring = true →
      ∀ d ∈ s.opDeadline op, ∀ call ∈ s.log, call.deadline ≤ d)
  | .processTimer => s.loop.pending = none
  | .turn => ∀ t ∈ heapTop s.loop.timers,
      (s.loop.timer t).next_timeout ≤ s.loop.cur_ms → (s.loop.timer t).repeats ≠ 1 →
        (s.loop.timer t).next_timeout ≤ s.loop.again t
  | _ => True

instance decidableKeepsTop (s : FiringSystem) : (op : TimerOp) → Decidable (KeepsTop s (.op op))
  | .resetTimer t _ => inferInstanceAs (Decidable
      ((s.loop.timer t).destory = false → heapTop s.loop.timers = some t))
  | .tick _ => isTrue trivial
  | .addTimer _ _ _ _ _ => isTrue trivial
  | .setPrivdata _ _ => isTrue trivial
  | .delTimer _ => isTrue trivial
  | .removeTimer _ => isTrue trivial

instance decidableOrderGuard (s : FiringSystem) : (a : FiringAction) → Decidable (OrderGuard s a)
  | .op op => inferInstanceAs (Decidable (KeepsTop s (.op op) ∧ (s.stage.isFiring = true →
      ∀ d ∈ s.opDeadline op, ∀ call ∈ s.log, call.deadline ≤ d)))
  | .processTimer => inferInstanceAs (Decidable (s.loop.pending = none))
  | .turn => inferInstanceAs (Decidable (∀ t ∈ heapTop s.loop.timers,
      (s.loop.timer t).next_timeout ≤ s.loop.cur_ms → (s.loop.timer t).repeats ≠ 1 →
        (s.loop.timer t).next_timeout ≤ u64 (s.loop.cur_ms + (s.loop.timer t).timeout)))
  | .processPendingEvent => isTrue trivial
  | .visit => isTrue trivial
  | .ret => isTrue trivial

/-- While `process_timer` runs, all that has expired lies before `horizon`, and what is in the
heap behind it. -/
structure Horizon (s : FiringSystem) (todo spot : List ℕ) (horizon : ℕ) : Prop where
  spot_le : ∀ d ∈ spot, d ≤ horizon
  todo_le : ∀ t ∈ todo, s.expired t ≤ horizon
  le_heap : ∀ t ∈ s.loop.timers.array, horizon ≤ (s.loop.timer t).next_timeout
  reached : s.stage.isFiring = true → horizon ∈ spot

/-- `process_timer` runs, or a callback that it has called. -/
def Stage.isExpiring : Stage → Bool
  | .expiring => true
  | .firing _ => true
  | _ => false

/-- What the log, the pending list and the heap have to do with each other. -/
structure InParts (s : FiringSystem) (todo spot deferred : List ℕ) : Prop where
  log_eq : s.log = spot.map (.mk false) ++ deferred.map (.mk true)
  spot_order : spot.Pairwise (· ≤ ·)
  deferred_order : (deferred ++ todo.map s.expired).Pairwise (· ≥ ·)
  horizon : s.stage.isExpiring = true → deferred = [] ∧ ∃ horizon, Horizon s todo spot horizon

variable {s s' : FiringSystem} {todo spot deferred : List ℕ} {t : ℕ}

theorem InParts.calledInTwoParts (h : InParts s todo spot deferred) : CalledInTwoParts s :=
  ⟨spot, deferred, h.log_eq, h.spot_order, (List.pairwise_append.mp h.deferred_order).1⟩

/-! ## The operations -/

theorem Inserts.mem {loop loop' : Loop} {new : Timer} (hins : Inserts loop t new loop')
    (hordered : TimersOrdered loop) (hfresh : t ∉ loop.timers.array) {u : ℕ}
    (hu : u ∈ loop'.timers.array) :
    (u ∈ loop.timers.array ∧ loop'.timer u = loop.timer u) ∨ u = t ∧ loop'.timer u = new := by
  have hsame : SameDeadlines loop loop' loop.timers.array := by
    intro u hu
    rw [hins.others u fun heq => hfresh (heq ▸ hu)]
  obtain ⟨-, hmem, -⟩ := hordered.insert hfresh hins.timers hsame
  rcases eq_or_ne u t with rfl | hne
  · exact Or.inr ⟨rfl, hins.self⟩
  · exact Or.inl ⟨(hmem u hu).resolve_left hne, hins.others u hne⟩

/-- A timer that is in the heap after an operation was there before, with the same deadline, or
it has got the one of the operation. -/
theorem runOp_deadlines {op : TimerOp} (hsound : s.Scheduled todo)
    (hguard : KeepsTop s (.op op)) (hop : s.runOp op = some s') {u : ℕ}
    (hu : u ∈ s'.loop.timers.array) :
    (u ∈ s.loop.timers.array ∧
        (s'.loop.timer u).next_timeout = (s.loop.timer u).next_timeout) ∨
      s.opDeadline op = some (s'.loop.timer u).next_timeout := by
  cases op with
  | tick now =>
      obtain rfl := Option.some.inj hop
      exact Or.inl ⟨hu, rfl⟩
  | addTimer timeout cb repeats now mem =>
      obtain ⟨hmem, -, rfl | ⟨t, loop', -, rfl, hadd, rfl⟩⟩ := runOp_addTimer hop
      · exact Or.inl ⟨hu, rfl⟩
      · obtain ⟨hins, -⟩ := addTimer_inserts hadd
        obtain ⟨hfresh, -⟩ := hsound.loop.unused hmem
        rcases hins.mem hsound.loop.ordered hfresh hu with ⟨hold, hsame⟩ | ⟨-, hself⟩
        · exact Or.inl ⟨hold, congrArg Timer.next_timeout hsame⟩
        · right
          rw [hself]
          rfl
  | setPrivdata t io =>
      simp only [FiringSystem.runOp, Option.ite_none_right_eq_some] at hop
      obtain rfl := Option.some.inj hop.2
      left
      refine ⟨hu, ?_⟩
      rcases eq_or_ne u t with rfl | hne
      · simp [Loop.setTimer]
      · simp [Loop.setTimer, hne]
  | resetTimer t timeout =>
      obtain ⟨loop, hreset, rfl⟩ := Option.map_eq_some_iff.mp hop
      cases hdestory : (s.loop.timer t).destory with
      | true =>
          obtain ⟨hins, -, -⟩ := resetTimer_fired hreset hdestory
          have hfresh := hsound.loop.gone hdestory
          rcases hins.mem hsound.loop.ordered hfresh hu with ⟨hold, hsame⟩ | ⟨-, hself⟩
          · exact Or.inl ⟨hold, congrArg Timer.next_timeout hsame⟩
          · right
            rw [hself]
            rfl
      | false =>
          obtain ⟨ht, hperm⟩ := rearmed_perm hsound.loop.ordered (hguard hdestory) timeout
          obtain ⟨-, rfl⟩ := (resetTimer_armed (hsound.loop.live t ht)).mp hreset
          rcases eq_or_ne u t with rfl | hne
          · right
            rw [rearmed_deadline]
            rfl
          · exact Or.inl ⟨hperm.mem_iff.mp hu, rearmed_others s.loop timeout u hne⟩
  | delTimer t =>
      simp only [FiringSystem.runOp, Option.ite_none_right_eq_some] at hop
      obtain rfl := Option.some.inj hop.2
      have hperm := heapPop_perm (timersCompare s.loop) s.loop.timers
      exact Or.inl ⟨List.mem_of_mem_tail (hperm.mem_iff.mp hu), rfl⟩
  | removeTimer t =>
      obtain rfl := Option.some.inj hop
      have hperm := (hsound.loop.ordered.remove t).2
      exact Or.inl ⟨List.mem_of_mem_erase (hperm.mem_iff.mp hu), rfl⟩

theorem InParts.runOp {op : TimerOp} (h : InParts s todo spot deferred)
    (hsound : s.Scheduled todo) (hguard : OrderGuard s (.op op)) (hopen : s.stage.outside = true)
    (hop : s.runOp op = some s') : InParts s' todo spot deferred := by
  obtain ⟨hstage, -, hexpired, hlog⟩ := runOp_frame hop
  refine ⟨hlog ▸ h.log_eq, h.spot_order, hexpired ▸ h.deferred_order, fun hexpiring => ?_⟩
  rw [hstage] at hexpiring
  obtain ⟨hnil, horizon, hspot, htodo, hheap, hreached⟩ := h.horizon hexpiring
  have hfiring : s.stage.isFiring = true := by
    cases hs : s.stage with
    | expiring => simp [hs, Stage.outside] at hopen
    | firing t => rfl
    | idle => simp [hs, Stage.isExpiring] at hexpiring
    | pending cur => simp [hs, Stage.isExpiring] at hexpiring
    | calling cur next => simp [hs, Stage.isExpiring] at hexpiring
  refine ⟨hnil, horizon, hspot, hexpired ▸ htodo, fun u hu => ?_, fun _ => hreached hfiring⟩
  rcases runOp_deadlines hsound hguard.1 hop hu with ⟨hold, hsame⟩ | hnew
  · rw [hsame]
    exact hheap u hold
  · -- the deadline that has just expired is in the log
    have hmem : CbCall.mk false horizon ∈ s.log := by
      rw [h.log_eq]
      exact List.mem_append_left _ (List.mem_map_of_mem (hreached hfiring))
    exact hguard.2 hfiring _ hnew _ hmem

/-! ## The steps -/

theorem Horizon.advance {horizon : ℕ} {rest : List ℕ} (h : Horizon s todo spot horizon)
    (hordered : TimersOrdered s.loop) (harray : s.loop.timers.array = t :: rest) :
    horizon ≤ (s.loop.timer t).next_timeout ∧
      ∀ u ∈ rest, (s.loop.timer t).next_timeout ≤ (s.loop.timer u).next_timeout := by
  refine ⟨h.le_heap t (by simp [harray]), fun u hu => ?_⟩
  exact hordered.top_le harray u (by simp [harray, hu])

theorem pairwise_concat {x : ℕ} (h : spot.Pairwise (· ≤ ·)) (hle : ∀ d ∈ spot, d ≤ x) :
    (spot ++ [x]).Pairwise (· ≤ ·) := by
  rw [List.pairwise_append]
  refine ⟨h, List.pairwise_singleton _ _, fun d hd y hy => ?_⟩
  rw [List.mem_singleton.mp hy]
  exact hle d hd

theorem InParts.expireLast {rest : List ℕ} (h : InParts s todo spot deferred)
    (hsound : s.Scheduled todo) (hstage : s.stage = .expiring)
    (harray : s.loop.timers.array = t :: rest) (hlast : (s.loop.timer t).repeats = 1) :
    InParts (s.expireLast t) (t :: todo) spot deferred := by
  have hloop := hsound.loop
  rw [FiringSystem.head, hstage] at hloop
  obtain ⟨-, htodo⟩ := hloop.last harray hlast
  obtain ⟨rfl, horizon, hhorizon⟩ := h.horizon (by rw [hstage]; rfl)
  obtain ⟨hle, hrest⟩ := hhorizon.advance hloop.ordered harray
  have hfires := firedLast_spec hloop.ordered harray hlast
  have hperm := hfires.perm_last hlast
  have hself : (s.expireLast t).expired t = (s.loop.timer t).next_timeout :=
    Function.update_self _ _ _
  have hothers : ∀ u ∈ todo, (s.expireLast t).expired u = s.expired u := by
    intro u hu
    have hne : u ≠ t := fun heq => htodo (heq ▸ hu)
    exact Function.update_of_ne hne _ _
  have hmap : (t :: todo).map (s.expireLast t).expired =
      (s.loop.timer t).next_timeout :: todo.map s.expired := by
    rw [List.map_cons, hself, List.map_congr_left hothers]
  refine ⟨h.log_eq, h.spot_order, ?_, fun _ => ⟨rfl, (s.loop.timer t).next_timeout, ?_⟩⟩
  · rw [hmap, List.nil_append, List.pairwise_cons]
    refine ⟨fun d hd => ?_, h.deferred_order⟩
    obtain ⟨u, hu, rfl⟩ := List.mem_map.mp hd
    exact (hhorizon.todo_le u hu).trans hle
  · refine ⟨fun d hd => (hhorizon.spot_le d hd).trans hle, fun u hu => ?_, fun u hu => ?_, ?_⟩
    · rcases List.mem_cons.mp hu with rfl | hu
      · exact hself.le
      · rw [hothers u hu]
        exact (hhorizon.todo_le u hu).trans hle
    · have hu' : u ∈ rest := hperm.mem_iff.mp hu
      show (s.loop.timer t).next_timeout ≤ ((firedLast s.loop t).timer u).next_timeout
      rw [hfires.others u hu']
      exact hrest u hu'
    · intro hfiring
      rw [FiringSystem.expireLast, hstage] at hfiring
      cases hfiring

theorem InParts.expireAgain {rest : List ℕ} (h : InParts s todo spot deferred)
    (hsound : s.Scheduled todo) (hstage : s.stage = .expiring)
    (harray : s.loop.timers.array = t :: rest) (hmore : (s.loop.timer t).repeats ≠ 1)
    (hguard : (s.loop.timer t).next_timeout ≤ s.loop.again t) :
    ∃ spot', InParts (s.expireAgain t) todo spot' deferred := by
  have hordered := hsound.loop.ordered
  obtain ⟨rfl, horizon, hhorizon⟩ := h.horizon (by rw [hstage]; rfl)
  obtain ⟨hle, hrest⟩ := hhorizon.advance hordered harray
  have hfires := firedAgain_spec hordered harray hmore
  have hheap : ∀ u ∈ (firedAgain s.loop t).timers.array,
      (s.loop.timer t).next_timeout ≤ ((firedAgain s.loop t).timer u).next_timeout := by
    intro u hu
    rcases hfires.mem hu with ⟨hu', hsame⟩ | ⟨rfl, -, hself⟩
    · rw [hsame]
      exact hrest u hu'
    · rw [hself]
      exact hguard
  have hspot : ∀ d ∈ spot, d ≤ (s.loop.timer t).next_timeout :=
    fun d hd => (hhorizon.spot_le d hd).trans hle
  have htodo : ∀ u ∈ todo, s.expired u ≤ (s.loop.timer t).next_timeout :=
    fun u hu => (hhorizon.todo_le u hu).trans hle
  rw [FiringSystem.expireAgain]
  split_ifs with hcb
  · refine ⟨spot, h.log_eq, h.spot_order, h.deferred_order,
      fun _ => ⟨rfl, (s.loop.timer t).next_timeout, ?_⟩⟩
    refine ⟨hspot, htodo, hheap, fun hfiring => ?_⟩
    rw [hstage] at hfiring
    cases hfiring
  · refine ⟨spot ++ [(s.loop.timer t).next_timeout], ?_, pairwise_concat h.spot_order hspot,
      h.deferred_order, fun _ => ⟨rfl, (s.loop.timer t).next_timeout, ?_⟩⟩
    · show s.log ++ _ = _
      rw [h.log_eq]
      simp
    · refine ⟨fun d hd => ?_, htodo, hheap, fun _ => List.mem_concat_self⟩
      rcases List.mem_append.mp hd with hd | hd
      · exact hspot d hd
      · exact (List.mem_singleton.mp hd).le

theorem OrderGuard.keepsTop {a : FiringAction} (h : OrderGuard s a) : KeepsTop s a := by
  cases a with
  | op op => exact h.1
  | _ => trivial

theorem InParts.step {a : FiringAction} (h : InParts s todo spot deferred)
    (hsound : s.Scheduled todo) (hguard : OrderGuard s a) (hstep : s.step a = some s') :
    ∃ spot' deferred', InParts s' (todoAfter s todo a) spot' deferred' := by
  cases a with
  | op op =>
      simp only [FiringSystem.step, Option.ite_none_right_eq_some] at hstep
      exact ⟨spot, deferred, h.runOp hsound hguard hstep.1 hstep.2⟩
  | processTimer =>
      simp only [FiringSystem.step, Option.ite_none_right_eq_some] at hstep
      obtain ⟨hidle, hstep⟩ := hstep
      obtain rfl := Option.some.inj hstep
      have hloop := hsound.loop
      have hnone : s.loop.pending = none := hguard
      rw [FiringSystem.head, hidle, hnone] at hloop
      obtain rfl := hloop.todo_nil
      refine ⟨[], [], rfl, .nil, .nil, fun _ => ⟨rfl, 0, ?_, ?_, ?_, ?_⟩⟩
      · exact fun d hd => absurd hd List.not_mem_nil
      · exact fun u hu => absurd hu List.not_mem_nil
      · exact fun u _ => Nat.zero_le _
      · exact fun hfiring => by cases hfiring
  | turn =>
      obtain ⟨hstage, t, rest, harray, hturn⟩ := step_turn hsound.loop.bounded hstep
      simp only [todoAfter, harray]
      rcases hturn with ⟨hlater, rfl⟩ | ⟨hdue, ⟨hlast, rfl⟩ | ⟨hmore, rfl⟩⟩
      · rw [if_neg fun hlast => hlater.not_ge hlast.1]
        exact ⟨spot, deferred, h.log_eq, h.spot_order, h.deferred_order,
          fun hexpiring => by cases hexpiring⟩
      · rw [if_pos ⟨hdue, hlast⟩]
        exact ⟨spot, deferred, h.expireLast hsound hstage harray hlast⟩
      · rw [if_neg fun hlast => hmore hlast.2]
        have hagain := hguard t (heapTop_eq_some_iff.mpr ⟨rest, harray⟩) hdue hmore
        obtain ⟨spot', hparts⟩ := h.expireAgain hsound hstage harray hmore hagain
        exact ⟨spot', deferred, hparts⟩
  | processPendingEvent =>
      simp only [FiringSystem.step, Option.ite_none_right_eq_some] at hstep
      obtain rfl := Option.some.inj hstep.2
      exact ⟨spot, deferred, h.log_eq, h.spot_order, h.deferred_order,
        fun hexpiring => by cases hexpiring⟩
  | visit =>
      have hloop := hsound.loop
      rcases step_visit hstep with ⟨hstage, rfl⟩ | ⟨cur, hstage, ⟨-, rfl⟩ | ⟨-, rfl⟩⟩
      · rw [FiringSystem.head, hstage] at hloop
        obtain rfl := hloop.todo_nil
        exact ⟨spot, deferred, h.log_eq, h.spot_order, h.deferred_order,
          fun hexpiring => by cases hexpiring⟩
      · rw [FiringSystem.head, hstage] at hloop
        obtain ⟨-, rest, rfl, -⟩ := hloop.tail
        refine ⟨spot, deferred, h.log_eq, h.spot_order, ?_, fun hexpiring => by cases hexpiring⟩
        have hsub : (rest.map s.expired).Sublist ((cur :: rest).map s.expired) :=
          List.sublist_cons_self _ _
        exact h.deferred_order.sublist (hsub.append_left deferred)
      · rw [FiringSystem.head, hstage] at hloop
        obtain ⟨-, rest, rfl, -⟩ := hloop.tail
        refine ⟨spot, deferred ++ [s.expired cur], ?_, h.spot_order, ?_,
          fun hexpiring => by cases hexpiring⟩
        · show s.log ++ _ = _
          rw [h.log_eq]
          simp
        · have horder := h.deferred_order
          simpa [todoAfter, FiringSystem.called] using horder
  | ret =>
      rcases step_ret hstep with ⟨t, hstage, rfl⟩ | ⟨cur, next, hstage, rfl⟩
      · refine ⟨spot, deferred, h.log_eq, h.spot_order, h.deferred_order, fun _ => ?_⟩
        obtain ⟨hnil, horizon, hhorizon⟩ := h.horizon (by rw [hstage]; rfl)
        exact ⟨hnil, horizon, hhorizon.spot_le, hhorizon.todo_le, hhorizon.le_heap,
          fun hfiring => by cases hfiring⟩
      · exact ⟨spot, deferred, h.log_eq, h.spot_order, h.deferred_order,
          fun hexpiring => by cases hexpiring⟩

/-! ## Runs -/

/-- In every run that meets the guard, the callbacks of one round run in two parts. -/
theorem called_in_two_parts (cur_ms timers_num : ℕ) (timer : ℕ → Timer) (epoll : EpollSet)
    (run : List FiringAction)
    (h : Meets FiringSystem.step OrderGuard (.start cur_ms timers_num timer epoll) run) :
    Along FiringSystem.step CalledInTwoParts (.start cur_ms timers_num timer epoll) run := by
  let good (s : FiringSystem) : Prop :=
    ∃ todo, s.Scheduled todo ∧ ∃ spot deferred, InParts s todo spot deferred
  have hstart : good (.start cur_ms timers_num timer epoll) :=
    ⟨[], scheduled_start cur_ms timers_num timer epoll, [], [], rfl, .nil, .nil,
      fun hexpiring => by cases hexpiring⟩
  have hgood : Along FiringSystem.step good (.start cur_ms timers_num timer epoll) run := by
    refine along_of_meets ?_ hstart h
    rintro s a s' ⟨todo, hsound, spot, deferred, hparts⟩ hguard hstep
    exact ⟨_, hsound.step hguard.keepsTop hstep, hparts.step hsound hguard hstep⟩
  refine hgood.mono ?_
  rintro s ⟨todo, -, spot, deferred, hparts⟩
  exact hparts.calledInTwoParts

/-- Three timers are due at 30: two that go off once, at 10 and at 20, and one at 30 that goes
off twice. -/
def mixedRun : List FiringAction :=
  [.op (.addTimer 10 (some (.user 0)) 1 0 (some 7)),
    .op (.addTimer 20 (some (.user 0)) 1 0 (some 8)),
    .op (.addTimer 30 (some (.user 0)) 2 0 (some 9)), .op (.tick 30),
    .processTimer, .turn, .turn, .turn, .ret, .turn,
    .processPendingEvent, .visit, .ret, .visit, .ret, .visit]

theorem called_in_two_parts_mixed :
    Along FiringSystem.step CalledInTwoParts (.start 0 0 (fun _ => Timer.zero) fun _ => none)
      mixedRun :=
  called_in_two_parts 0 0 (fun _ => Timer.zero) (fun _ => none) mixedRun (by decide +kernel)

/-- A callback makes a timer whose deadline has long passed. -/
def pastRun : List FiringAction :=
  [.op (.addTimer 30 (some (.user 0)) 2 0 (some 9)), .op (.addTimer 1000 none 0 0 (some 10)),
    .op (.tick 30), .processTimer, .turn,
    .op (.addTimer (-15) (some (.user 0)) 2 30 (some 7)), .ret, .turn]

/-- A callback resets timer 8, which is not at the top. -/
def resetRun : List FiringAction :=
  [.op (.addTimer 10 (some (.user 0)) 2 0 (some 6)),
    .op (.addTimer 12 (some (.user 0)) 2 0 (some 7)),
    .op (.addTimer 14 (some (.user 0)) 2 0 (some 8)),
    .op (.addTimer 18 (some (.user 0)) 2 0 (some 9)),
    .op (.addTimer 16 (some (.user 0)) 2 0 (some 10)), .op (.setPrivdata 8 0), .op (.tick 20),
    .processTimer, .turn, .op (.resetTimer 8 0), .ret, .turn, .ret, .turn]

/-- The calls since `process_timer` was entered, at the end of a run of a new loop. -/
def logAfter (run : List FiringAction) : Option (List CbCall) :=
  (exec FiringSystem.step (.start 0 0 (fun _ => Timer.zero) fun _ => none) run).map (·.log)

theorem along_logAfter {P : FiringSystem → Prop} {run : List FiringAction} {log : List CbCall}
    (h : Along FiringSystem.step P (.start 0 0 (fun _ => Timer.zero) fun _ => none) run)
    (hlog : logAfter run = some log) : ∃ s, P s ∧ s.log = log := by
  obtain ⟨s, hs, hlog⟩ := Option.map_eq_some_iff.mp hlog
  exact ⟨s, h.exec hs, hlog⟩

theorem CalledInTwoParts.spot_order (h : CalledInTwoParts s) :
    ((s.log.filter fun call => !call.deferred).map CbCall.deadline).Pairwise (· ≤ ·) := by
  obtain ⟨spot, deferred, hlog, hspot, -⟩ := h
  have hfilter : (s.log.filter fun call => !call.deferred).map CbCall.deadline = spot := by
    rw [hlog, List.filter_append, List.map_append, List.filter_map, List.filter_map]
    simp [Function.comp_def]
  rwa [hfilter]

/-- The last deadline comes first, and the first one last. Where a callback makes a timer that
is long due, or resets one that is not at the top, the two parts are not in order either. -/
theorem not_called_in_order :
    ¬ Along FiringSystem.step CalledInOrder (.start 0 0 (fun _ => Timer.zero) fun _ => none)
        mixedRun ∧
      ¬ Along FiringSystem.step CalledInTwoParts
          (.start 0 0 (fun _ => Timer.zero) fun _ => none) pastRun ∧
      ¬ Along FiringSystem.step CalledInTwoParts
          (.start 0 0 (fun _ => Timer.zero) fun _ => none) resetRun := by
  refine ⟨fun h => ?_, fun h => ?_, fun h => ?_⟩
  · have hlog : logAfter mixedRun = some [⟨false, 30⟩, ⟨true, 20⟩, ⟨true, 10⟩] := by
      decide +kernel
    obtain ⟨s, horder, hs⟩ := along_logAfter h hlog
    rw [CalledInOrder, hs] at horder
    exact absurd horder (by decide)
  · have hlog : logAfter pastRun = some [⟨false, 30⟩, ⟨false, 15⟩] := by decide +kernel
    obtain ⟨s, hparts, hs⟩ := along_logAfter h hlog
    have hspot := hparts.spot_order
    rw [hs] at hspot
    exact absurd hspot (by decide)
  · have hlog : logAfter resetRun = some [⟨false, 10⟩, ⟨false, 20⟩, ⟨false, 16⟩] := by
      decide +kernel
    obtain ⟨s, hparts, hs⟩ := along_logAfter h hlog
    have hspot := hparts.spot_order
    rw [hs] at hspot
    exact absurd hspot (by decide)

end LibConn
