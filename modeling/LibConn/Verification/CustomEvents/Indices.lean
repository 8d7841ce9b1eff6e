import LibConn.Model.CustomEvents
import LibConn.Shared.Run

/-! # The slots of `custom_events`

`loop_post_event` takes the next slot and `pipe_read_cb` one slot for each byte it is given.
Neither looks at `max_custom_events_num`. -/

namespace LibConn.CustomEvents

open LibConn.Run

/-- The array has been used within its bounds, and no more events wait than it holds. -/
structure InArray (s : IndexSystem) : Prop where
  used : ∀ i ∈ s.used, i < s.sys.loop.max_custom_events_num
  num_le : s.sys.loop.custom_events_num ≤ s.sys.loop.max_custom_events_num

/-- A post finds a slot, and a drain is given no more bytes than there are slots. -/
def HasSlots (s : IndexSystem) : Action → Prop
  | .post _ nwrite => nwrite = 1 →
      s.sys.loop.custom_events_num < s.sys.loop.max_custom_events_num
  | .pipeReadCb => ∀ nbytes, s.sys.reading = some nbytes →
      nbytes ≤ s.sys.loop.max_custom_events_num
  | _ => True

variable {s t : IndexSystem} {a : Action}

@[simp] theorem store_max (loop : EventLoop) (i : ℕ) (event : Event) :
    (loop.store i event).max_custom_events_num = loop.max_custom_events_num := by
  rw [EventLoop.store]
  split_ifs <;> rfl

theorem indexStep_some (h : s.step a = some t) :
    t.used = s.used ++ s.sys.indices a ∧
      t.sys.loop.max_custom_events_num = s.sys.loop.max_custom_events_num ∧
      t.sys.loop.custom_events_num =
        match a with
        | .post _ nwrite =>
            if nwrite = 1 then s.sys.loop.custom_events_num + 1
            else s.sys.loop.custom_events_num
        | .pipeReadCb => 0
        | _ => s.sys.loop.custom_events_num := by
  rw [IndexSystem.step, Option.ite_none_right_eq_some] at h
  obtain ⟨-, h⟩ := h
  obtain ⟨sys, hsys, rfl⟩ := Option.map_eq_some_iff.mp h
  refine ⟨rfl, ?_⟩
  cases a with
  | post event nwrite =>
      obtain rfl := Option.some.inj hsys
      by_cases hone : nwrite = 1
      · simp [loopPostEvent, hone]
      · simp [loopPostEvent, hone]
  | wakeup =>
      obtain rfl := Option.some.inj hsys
      exact ⟨rfl, rfl⟩
  | read k =>
      rw [System.step, Option.ite_none_right_eq_some] at hsys
      obtain ⟨-, hsys⟩ := hsys
      obtain rfl := Option.some.inj hsys
      exact ⟨rfl, rfl⟩
  | pipeReadCb =>
      obtain ⟨nbytes, -, rfl⟩ := Option.map_eq_some_iff.mp hsys
      exact ⟨rfl, rfl⟩

/-- The indices of a step are within the array exactly where `HasSlots` says so. -/
theorem indices_iff (h : s.step a = some t) :
    (∀ i ∈ s.sys.indices a, i < s.sys.loop.max_custom_events_num) ↔ HasSlots s a := by
  cases a with
  | post event nwrite =>
      by_cases hone : nwrite = 1 <;> simp [System.indices, HasSlots, hone]
  | wakeup => simp [System.indices, HasSlots]
  | read k => simp [System.indices, HasSlots]
  | pipeReadCb =>
      rw [IndexSystem.step, Option.ite_none_right_eq_some] at h
      obtain ⟨sys, hsys, -⟩ := Option.map_eq_some_iff.mp h.2
      obtain ⟨nbytes, hreading, -⟩ := Option.map_eq_some_iff.mp hsys
      simp only [System.indices, HasSlots, hreading, Option.getD_some, List.mem_range,
        Option.some.injEq, forall_eq']
      constructor
      · intro hall
        by_contra hmore
        exact absurd (hall s.sys.loop.max_custom_events_num (by omega)) (Nat.lt_irrefl _)
      · exact fun hle i hi => Nat.lt_of_lt_of_le hi hle

theorem InArray.step_iff (h : InArray s) (hstep : s.step a = some t) :
    InArray t ↔ HasSlots s a := by
  rw [← indices_iff hstep]
  obtain ⟨hused, hmax, hnum⟩ := indexStep_some hstep
  constructor
  · rintro ⟨hall, -⟩ i hi
    rw [hused, hmax] at hall
    exact hall i (List.mem_append_right _ hi)
  · intro hall
    refine ⟨fun i hi => ?_, ?_⟩
    · rw [hused] at hi
      rw [hmax]
      rcases List.mem_append.mp hi with hi | hi
      · exact h.used i hi
      · exact hall i hi
    · have hle := h.num_le
      have hslots := (indices_iff hstep).mp hall
      rw [hnum, hmax]
      cases a with
      | post event nwrite =>
          dsimp only
          split_ifs with hone
          · exact hslots hone
          · exact hle
      | pipeReadCb => exact Nat.zero_le _
      | wakeup => exact hle
      | read k => exact hle

/-- The array is never overrun as long as every post finds a slot and every drain has one for
each of its bytes. -/
theorem inArray_iff_hasSlots (malloced : ℕ → Option Event) (run : List Action) :
    Along IndexSystem.step InArray (.start malloced) run ↔
      Meets IndexSystem.step HasSlots (.start malloced) run :=
  along_iff_meets (fun _ h => h) (fun _ _ _ h hg hstep => (h.step_iff hstep).mpr hg)
    (fun _ _ _ h hstep ht => (h.step_iff hstep).mp ht) run ⟨by simp [IndexSystem.start],
      Nat.zero_le _⟩

/-- Nothing stops the posts before the pipe is full. -/
theorem exec_posts (malloced : ℕ → Option Event) (event : Event) (n : ℕ) (hn : n ≤ pipeSize) :
    ∃ t, exec IndexSystem.step (.start malloced) (List.replicate n (.post event 1)) = some t ∧
      t.sys.loop.custom_events_num = n ∧ t.sys.loop.pipe.length = n ∧
      t.sys.loop.max_custom_events_num = 1024 := by
  induction n with
  | zero => exact ⟨_, rfl, rfl, rfl, rfl⟩
  | succ n ih =>
      obtain ⟨s, hs, hnum, hpipe, hmax⟩ := ih (by omega)
      have hroom : s.sys.hasRoom (.post event 1) = true := by
        simp only [System.hasRoom, hpipe, Bool.or_eq_true, decide_eq_true_eq]
        omega
      rw [List.replicate_succ', exec_concat, hs, Option.bind_some, IndexSystem.step, if_pos hroom]
      refine ⟨_, rfl, ?_, ?_, ?_⟩
      · simp [loopPostEvent, hnum]
      · simp [loopPostEvent, hpipe]
      · simp [loopPostEvent, hmax]

/-- After 1024 posts the next one writes behind the array. -/
theorem not_inArray_posts :
    ¬ Along IndexSystem.step InArray (.start fun _ => none)
      (List.replicate 1025 (.post ⟨1, true⟩ 1)) := by
  intro h
  obtain ⟨t, ht, hnum, -, hmax⟩ := exec_posts (fun _ => none) ⟨1, true⟩ 1025 (by decide)
  have hle := (h.exec ht).num_le
  rw [hnum, hmax] at hle
  exact absurd hle (by decide)

end LibConn.CustomEvents
