import LibConn.Verification.Timer.Firing

/-! # How often a timer fires

The calls that a timer has had and those that are still to come make up what was asked for.
The count goes wrong where a timer expires that its own callback has armed again: its counter
is zero by then and wraps to the value for timers that fire forever. -/

namespace LibConn

open LibConn.Run

/-- The timer fires as often as it was asked to. -/
structure AsAsked (s : FiringSystem) (t asked : ℕ) : Prop where
  once : s.loop.timers.array.count t ≤ 1
  counter : (s.loop.timer t).repeats ≠ uint32Max
  at_most : s.calls t ≤ asked
  exactly : t ∉ s.loop.timers.array → (s.loop.timer t).pending = false → s.calls t = asked

def FiresAsAsked (s : FiringSystem) : Prop :=
  ∀ t asked, s.asked t = some asked → AsAsked s t asked

/-- A new timer finds room in the heap, `reset_timer` takes no other timer out of it and
`del_timer` the one it is about, and no timer expires whose counter is zero. -/
def FiringGuard (s : FiringSystem) : FiringAction → Prop
  | .op (.addTimer timeout _ _ _ mem) => timeout = 0 ∨ mem = none ∨ AddGuard s.loop
  | .op (.resetTimer t _) => ResetGuard s.loop t
  | .op (.delTimer t) => heapTop s.loop.timers = some t
  | .turn => ∀ t ∈ heapTop s.loop.timers,
      (s.loop.timer t).next_timeout ≤ s.loop.cur_ms → (s.loop.timer t).repeats ≠ 0
  | _ => True

instance decidableFiringGuard (s : FiringSystem) : (a : FiringAction) → Decidable (FiringGuard s a)
  | .op (.addTimer timeout _ _ _ mem) => inferInstanceAs (Decidable
      (timeout = 0 ∨ mem = none ∨ s.loop.timers.size < s.loop.timers.capacity))
  | .op (.resetTimer t _) => inferInstanceAs (Decidable
      (if (s.loop.timer t).destory = true then s.loop.timers.size < s.loop.timers.capacity
        else heapTop s.loop.timers = some t))
  | .op (.delTimer t) => inferInstanceAs (Decidable (heapTop s.loop.timers = some t))
  | .op (.tick _) => isTrue trivial
  | .op (.setPrivdata _ _) => isTrue trivial
  | .op (.removeTimer _) => isTrue trivial
  | .turn => inferInstanceAs (Decidable (∀ t ∈ heapTop s.loop.timers,
      (s.loop.timer t).next_timeout ≤ s.loop.cur_ms → (s.loop.timer t).repeats ≠ 0))
  | .processTimer => isTrue trivial
  | .processPendingEvent => isTrue trivial
  | .visit => isTrue trivial
  | .ret => isTrue trivial

/-- The calls of a timer that are still to come. -/
def callsLeft (loop : Loop) (todo : List ℕ) (t : ℕ) : ℕ :=
  (if t ∈ todo then 1 else 0) + if t ∈ loop.timers.array then (loop.timer t).repeats else 0

/-- What is known of a timer that is to be called `asked` times. -/
structure Account (s : FiringSystem) (todo : List ℕ) (t asked : ℕ) : Prop where
  counter : (s.loop.timer t).repeats ≠ uint32Max
  cb : (s.loop.timer t).cb ≠ none
  listed : t ∈ todo → (s.loop.timer t).pending = true ∨ t ∈ s.loop.timers.array
  at_most : s.calls t + callsLeft s.loop todo t ≤ asked
  exactly : (t ∈ s.loop.timers.array → (s.loop.timer t).repeats ≠ 0) →
    s.calls t + callsLeft s.loop todo t = asked

def Accounts (s : FiringSystem) (todo : List ℕ) : Prop :=
  ∀ t asked, s.asked t = some asked → Account s todo t asked

variable {s s' : FiringSystem} {todo todo' : List ℕ} {t asked : ℕ}

theorem Account.asAsked (h : Account s todo t asked) (hnodup : s.loop.timers.array.Nodup) :
    AsAsked s t asked where
  once := List.nodup_iff_count_le_one.mp hnodup t
  counter := h.counter
  at_most := (Nat.le_add_right _ _).trans h.at_most
  exactly hgone hpending := by
    have htodo : t ∉ todo := by
      intro hmem
      rcases h.listed hmem with hflag | hin
      · exact absurd (hpending.symm.trans hflag) (by decide)
      · exact hgone hin
    have hexact := h.exactly fun hin => absurd hin hgone
    rwa [callsLeft, if_neg htodo, if_neg hgone] at hexact

theorem Account.keep (h : Account s todo t asked)
    (hrepeats : (s'.loop.timer t).repeats = (s.loop.timer t).repeats)
    (hcb : (s'.loop.timer t).cb = (s.loop.timer t).cb) (hcalls : s'.calls t = s.calls t)
    (htodo : t ∈ todo' ↔ t ∈ todo)
    (hmem : t ∈ s'.loop.timers.array ↔ t ∈ s.loop.timers.array)
    (hlisted : t ∈ todo' → (s'.loop.timer t).pending = true ∨ t ∈ s'.loop.timers.array) :
    Account s' todo' t asked := by
  have hleft : callsLeft s'.loop todo' t = callsLeft s.loop todo t := by
    simp only [callsLeft, hrepeats, htodo, hmem]
  refine ⟨hrepeats ▸ h.counter, hcb ▸ h.cb, hlisted, ?_, ?_⟩
  · rw [hcalls, hleft]
    exact h.at_most
  · rw [hcalls, hleft, hrepeats, hmem]
    exact h.exactly

theorem Account.same (h : Account s todo t asked)
    (htimer : s'.loop.timer t = s.loop.timer t) (hcalls : s'.calls t = s.calls t)
    (htodo : t ∈ todo' ↔ t ∈ todo)
    (hmem : t ∈ s'.loop.timers.array ↔ t ∈ s.loop.timers.array) : Account s' todo' t asked := by
  refine h.keep ?_ ?_ hcalls htodo hmem fun hin => ?_
  · rw [htimer]
  · rw [htimer]
  · rw [htimer, hmem]
    exact h.listed (htodo.mp hin)

/-! ## The operations -/

theorem addTimer_room {loop loop' : Loop} {new : Timer} (hordered : TimersOrdered loop)
    (hfresh : t ∉ loop.timers.array) (hins : Inserts loop t new loop') (hroom : AddGuard loop)
    (u : ℕ) : u ∈ loop'.timers.array ↔ u = t ∨ u ∈ loop.timers.array := by
  have hsame : SameDeadlines loop loop' loop.timers.array := by
    intro u hu
    rw [hins.others u fun heq => hfresh (heq ▸ hu)]
  obtain ⟨-, -, hperm⟩ := hordered.insert hfresh hins.timers hsame
  rw [(hperm hroom).mem_iff, List.mem_cons]

theorem askedFor_eq {cb : Option TimerCb} {repeats : ℕ} (h : askedFor cb repeats = some asked) :
    cb ≠ none ∧ repeats < uint32Max ∧ asked = if repeats = 0 then 1 else repeats := by
  rw [askedFor, Option.ite_none_right_eq_some] at h
  obtain ⟨⟨hcb, hlt⟩, h⟩ := h
  refine ⟨hcb, hlt, ?_⟩
  rw [← Option.some.inj h]
  split_ifs <;> omega

theorem Accounts.addTimer {timeout : ℤ} {cb : Option TimerCb} {repeats now : ℕ}
    {mem : Option ℕ} {loop' : Loop} (h : Accounts s todo) (hsound : s.Scheduled todo)
    (hmem : s.loop.memFree mem)
    (hadd : addTimer s.loop timeout cb repeats now mem = (some t, loop'))
    (hroom : AddGuard s.loop) :
    Accounts
      { s with
        loop := loop', calls := Function.update s.calls t 0
        asked := Function.update s.asked t (askedFor cb repeats) } todo := by
  obtain ⟨hins, -⟩ := addTimer_inserts hadd
  obtain ⟨-, rfl⟩ := addTimer_some hadd
  obtain ⟨hfresh, htodo⟩ := hsound.loop.unused hmem
  have hin := addTimer_room hsound.loop.ordered hfresh hins hroom
  intro u asked hasked
  rcases eq_or_ne u t with rfl | hu
  · simp only [Function.update_self] at hasked
    obtain ⟨hcb, hlt, rfl⟩ := askedFor_eq hasked
    have hself : u ∈ loop'.timers.array := (hin u).mpr (Or.inl rfl)
    have hrepeats : (loop'.timer u).repeats = if repeats = 0 then 1 else repeats := by
      rw [hins.self]
      rfl
    have hleft : callsLeft loop' todo u = if repeats = 0 then 1 else repeats := by
      rw [callsLeft, if_neg htodo, if_pos hself, hrepeats, Nat.zero_add]
    have hcounted : (if repeats = 0 then 1 else repeats) ≠ uint32Max := by
      split_ifs
      · decide
      · exact hlt.ne
    refine ⟨hrepeats ▸ hcounted, ?_, fun hmem => absurd hmem htodo, ?_, fun _ => ?_⟩
    · rw [show (loop'.timer u).cb = cb by rw [hins.self]; rfl]
      exact hcb
    · simp only [Function.update_self, hleft, Nat.zero_add, le_refl]
    · simp only [Function.update_self, hleft, Nat.zero_add]
  · have hold : s.asked u = some asked := (Function.update_of_ne hu _ _).symm.trans hasked
    refine (h u asked hold).same (hins.others u hu) (Function.update_of_ne hu _ _) Iff.rfl ?_
    rw [hin u]
    exact or_iff_right hu

/-- A timer that is armed again is counted once more where its own callback does it. -/
theorem Accounts.resetTimer {timeout : ℤ} {loop' : Loop} (h : Accounts s todo)
    (hsound : s.Scheduled todo) (hguard : ResetGuard s.loop t)
    (hreset : resetTimer s.loop t timeout = some loop') :
    Accounts
      { s with
        loop := loop'
        asked :=
          if s.rearmsSelf t then Function.update s.asked t ((s.asked t).map (· + 1))
          else s.asked } todo := by
  intro u asked hasked
  have hrearms : u ≠ t ∨ (s.loop.timer t).destory = false → s.asked u = some asked := by
    intro hor
    simp only at hasked
    split_ifs at hasked with hself
    · rcases hor with hu | hdestory
      · rwa [Function.update_of_ne hu] at hasked
      · rw [FiringSystem.rearmsSelf] at hself
        split at hself
        · simp [hdestory] at hself
        · cases hself
    · exact hasked
  cases hdestory : (s.loop.timer t).destory with
  | true =>
      obtain ⟨hins, halloc, -⟩ := resetTimer_fired hreset hdestory
      have hfresh := hsound.loop.gone hdestory
      rw [ResetGuard, if_pos hdestory] at hguard
      have hin := addTimer_room hsound.loop.ordered hfresh hins hguard
      rcases eq_or_ne u t with rfl | hu
      · obtain ⟨old, hold, hle⟩ : ∃ old, s.asked u = some old ∧ old ≤ asked := by
          simp only at hasked
          split_ifs at hasked
          · rw [Function.update_self, Option.map_eq_some_iff] at hasked
            obtain ⟨old, hold, rfl⟩ := hasked
            exact ⟨old, hold, Nat.le_succ old⟩
          · exact ⟨asked, hasked, le_refl asked⟩
        have haccount := h u old hold
        have hzero : (s.loop.timer u).repeats = 0 :=
          ((hsound.loop.flagged u halloc).destory hdestory).resolve_right haccount.counter
        have hself : u ∈ loop'.timers.array := (hin u).mpr (Or.inl rfl)
        have hrepeats : (loop'.timer u).repeats = 0 := by
          rw [hins.self]
          exact hzero
        have hleft : callsLeft loop' todo u = callsLeft s.loop todo u := by
          simp only [callsLeft, if_pos hself, if_neg hfresh, hrepeats]
        refine ⟨?_, ?_, fun _ => Or.inr hself, ?_, fun hmore => absurd hrepeats (hmore hself)⟩
        · rw [hrepeats]
          decide
        · rw [show (loop'.timer u).cb = (s.loop.timer u).cb by rw [hins.self]; rfl]
          exact haccount.cb
        · show s.calls u + callsLeft loop' todo u ≤ asked
          rw [hleft]
          exact haccount.at_most.trans hle
      · refine (h u asked (hrearms (Or.inl hu))).same (hins.others u hu) rfl Iff.rfl ?_
        rw [hin u]
        exact or_iff_right hu
  | false =>
      have hold := hrearms (Or.inr hdestory)
      rw [ResetGuard, if_neg (by simp [hdestory])] at hguard
      obtain ⟨ht, hperm⟩ := rearmed_perm hsound.loop.ordered hguard timeout
      obtain ⟨-, rfl⟩ := (resetTimer_armed (hsound.loop.live t ht)).mp hreset
      rcases eq_or_ne u t with rfl | hu
      · refine (h u asked hold).keep ?_ ?_ rfl Iff.rfl hperm.mem_iff fun _ =>
          Or.inr (hperm.mem_iff.mpr ht)
        · rw [rearmed_self]
          rfl
        · rw [rearmed_self]
          rfl
      · exact (h u asked hold).same (rearmed_of_ne timeout hu) rfl Iff.rfl hperm.mem_iff

theorem Accounts.cancel {loop' : Loop} (h : Accounts s todo)
    (htimer : loop'.timer = s.loop.timer)
    (hmem : ∀ u, u ≠ t → (u ∈ loop'.timers.array ↔ u ∈ s.loop.timers.array)) :
    Accounts { s with loop := loop', asked := Function.update s.asked t none } todo := by
  intro u asked hasked
  rcases eq_or_ne u t with rfl | hu
  · simp only [Function.update_self] at hasked
    cases hasked
  · have hold : s.asked u = some asked := (Function.update_of_ne hu _ _).symm.trans hasked
    exact (h u asked hold).same (congrFun htimer u) rfl Iff.rfl (hmem u hu)

theorem mem_heapPop {compare : ℕ → ℕ → Bool} {timers : Heap ℕ} (htop : heapTop timers = some t)
    (u : ℕ) (hu : u ≠ t) : u ∈ (heapPop compare timers).array ↔ u ∈ timers.array := by
  obtain ⟨rest, harray⟩ := heapTop_eq_some_iff.mp htop
  have hperm := heapPop_perm compare timers
  rw [harray, List.tail_cons] at hperm
  rw [hperm.mem_iff, harray, List.mem_cons]
  exact (or_iff_right hu).symm

theorem Accounts.runOp {op : TimerOp} (h : Accounts s todo) (hsound : s.Scheduled todo)
    (hguard : FiringGuard s (.op op)) (hop : s.runOp op = some s') : Accounts s' todo := by
  cases op with
  | tick now =>
      obtain rfl := Option.some.inj hop
      exact fun u asked hasked => (h u asked hasked).same rfl rfl Iff.rfl Iff.rfl
  | addTimer timeout cb repeats now mem =>
      obtain ⟨hmem, -, rfl | ⟨t, loop', htimeout, rfl, hadd, rfl⟩⟩ := runOp_addTimer hop
      · exact h
      · have hroom : AddGuard s.loop := by simpa [FiringGuard, htimeout] using hguard
        exact h.addTimer hsound hmem hadd hroom
  | setPrivdata t io =>
      simp only [FiringSystem.runOp, Option.ite_none_right_eq_some] at hop
      obtain rfl := Option.some.inj hop.2
      intro u asked hasked
      have haccount := h u asked hasked
      rcases eq_or_ne u t with rfl | hu
      · refine haccount.keep ?_ ?_ rfl Iff.rfl Iff.rfl fun hin => ?_
        · simp [Loop.setTimer]
        · simp [Loop.setTimer]
        · simpa [Loop.setTimer] using haccount.listed hin
      · exact haccount.same (Function.update_of_ne hu _ _) rfl Iff.rfl Iff.rfl
  | resetTimer t timeout =>
      obtain ⟨loop, hreset, rfl⟩ := Option.map_eq_some_iff.mp hop
      exact h.resetTimer hsound hguard hreset
  | delTimer t =>
      simp only [FiringSystem.runOp, Option.ite_none_right_eq_some] at hop
      obtain rfl := Option.some.inj hop.2
      exact h.cancel rfl (mem_heapPop hguard)
  | removeTimer t =>
      obtain rfl := Option.some.inj hop
      refine h.cancel rfl fun u hu => ?_
      rw [(hsound.loop.ordered.remove t).2.mem_iff]
      exact List.mem_erase_of_ne hu

/-! ## The steps -/

theorem Accounts.expireLast {rest : List ℕ} (h : Accounts s todo) (hsound : s.Scheduled todo)
    (hstage : s.stage = .expiring) (harray : s.loop.timers.array = t :: rest)
    (hlast : (s.loop.timer t).repeats = 1) : Accounts (s.expireLast t) (t :: todo) := by
  have hloop := hsound.loop
  rw [FiringSystem.head, hstage] at hloop
  have ht : t ∈ s.loop.timers.array := by simp [harray]
  obtain ⟨-, htodo⟩ := hloop.last harray hlast
  obtain ⟨hself, -⟩ := firedLast_self (hloop.notPending ht)
  have hperm := (firedLast_spec hloop.ordered harray hlast).perm_last hlast
  have hgone : t ∉ (firedLast s.loop t).timers.array := fun hmem =>
    hloop.ordered.notMem_rest harray (hperm.mem_iff.mp hmem)
  intro u asked hasked
  have haccount : Account s todo u asked := h u asked hasked
  rcases eq_or_ne u t with rfl | hu
  · have hleft : callsLeft s.loop todo u = 1 := by
      rw [callsLeft, if_neg htodo, if_pos ht, hlast]
    have hleft' : callsLeft (firedLast s.loop u) (u :: todo) u = 1 := by
      rw [callsLeft, if_pos List.mem_cons_self, if_neg hgone]
    refine ⟨?_, ?_, fun _ => Or.inl ?_, ?_, fun _ => ?_⟩
    · show ((firedLast s.loop u).timer u).repeats ≠ uint32Max
      rw [hself]
      show counted (s.loop.timer u).repeats ≠ uint32Max
      rw [hlast]
      decide
    · show ((firedLast s.loop u).timer u).cb ≠ none
      rw [hself]
      exact haccount.cb
    · show ((firedLast s.loop u).timer u).pending = true
      rw [hself]
    · show s.calls u + callsLeft (firedLast s.loop u) (u :: todo) u ≤ asked
      rw [hleft', ← hleft]
      exact haccount.at_most
    · show s.calls u + callsLeft (firedLast s.loop u) (u :: todo) u = asked
      rw [hleft', ← hleft]
      exact haccount.exactly fun _ => by rw [hlast]; decide
  · refine haccount.same (firedLast_others hu) rfl ?_ ?_
    · rw [List.mem_cons]
      exact or_iff_right hu
    · show u ∈ (firedLast s.loop t).timers.array ↔ u ∈ s.loop.timers.array
      rw [hperm.mem_iff, harray, List.mem_cons]
      exact (or_iff_right hu).symm

theorem Accounts.expireAgain {rest : List ℕ} (h : Accounts s todo) (hsound : s.Scheduled todo)
    (harray : s.loop.timers.array = t :: rest) (hmore : (s.loop.timer t).repeats ≠ 1)
    (hpos : (s.loop.timer t).repeats ≠ 0) : Accounts (s.expireAgain t) todo := by
  have ht : t ∈ s.loop.timers.array := by simp [harray]
  have hperm : (firedAgain s.loop t).timers.array.Perm s.loop.timers.array :=
    harray ▸ (firedAgain_spec hsound.loop.ordered harray hmore).perm_again hmore
  intro u asked hasked
  have hold : s.asked u = some asked := by
    rw [FiringSystem.expireAgain] at hasked
    split_ifs at hasked
    · exact hasked
    · exact hasked
  have haccount := h u asked hold
  rw [FiringSystem.expireAgain]
  rcases eq_or_ne u t with rfl | hu
  · rw [if_neg haccount.cb]
    have hin : u ∈ (firedAgain s.loop u).timers.array := hperm.mem_iff.mpr ht
    have hcounted : counted (s.loop.timer u).repeats = (s.loop.timer u).repeats - 1 :=
      counted_of_ne (hsound.loop.bounded u ht) (Nat.pos_of_ne_zero hpos) haccount.counter
    have hrepeats : ((firedAgain s.loop u).timer u).repeats = (s.loop.timer u).repeats - 1 := by
      rw [firedAgain_self]
      exact hcounted
    have hleft : callsLeft s.loop todo u =
        callsLeft (firedAgain s.loop u) todo u + 1 := by
      simp only [callsLeft, if_pos ht, if_pos hin, hrepeats]
      omega
    have hcalls : s.calls u + callsLeft s.loop todo u =
        s.calls u + 1 + callsLeft (firedAgain s.loop u) todo u := by
      rw [hleft]
      omega
    refine ⟨?_, ?_, fun _ => Or.inr hin, ?_, fun _ => ?_⟩
    · show ((firedAgain s.loop u).timer u).repeats ≠ uint32Max
      have hle := hsound.loop.bounded u ht
      rw [hrepeats]
      omega
    · show ((firedAgain s.loop u).timer u).cb ≠ none
      rw [firedAgain_self]
      exact haccount.cb
    · have hle := haccount.at_most
      rw [hcalls] at hle
      simpa only [FiringSystem.called, Function.update_self] using hle
    · have heq := haccount.exactly fun _ => hpos
      rw [hcalls] at heq
      simpa only [FiringSystem.called, Function.update_self] using heq
  · split_ifs
    · exact haccount.same (firedAgain_others hu) rfl Iff.rfl hperm.mem_iff
    · exact haccount.same (firedAgain_others hu) (Function.update_of_ne hu _ _) Iff.rfl
        hperm.mem_iff

theorem Accounts.visit {stage : Stage} {call : CbCall} (h : Accounts s (t :: todo))
    (hnot : t ∉ todo) : Accounts ({ s with stage := stage }.called t call) todo := by
  intro u asked hasked
  have haccount : Account s (t :: todo) u asked := h u asked hasked
  rcases eq_or_ne u t with rfl | hu
  · have hcalls : s.calls u + callsLeft s.loop (u :: todo) u =
        s.calls u + 1 + callsLeft s.loop todo u := by
      simp only [callsLeft, if_pos List.mem_cons_self, if_neg hnot]
      omega
    refine ⟨haccount.counter, haccount.cb, fun hmem => absurd hmem hnot, ?_, fun hmore => ?_⟩
    · have hle := haccount.at_most
      rw [hcalls] at hle
      simpa only [FiringSystem.called, Function.update_self] using hle
    · have heq := haccount.exactly hmore
      rw [hcalls] at heq
      simpa only [FiringSystem.called, Function.update_self] using heq
  · refine haccount.same rfl (Function.update_of_ne hu _ _) ?_ Iff.rfl
    rw [List.mem_cons]
    exact (or_iff_right hu).symm

theorem Accounts.ret {stage : Stage} (h : Accounts s todo) (hnot : t ∉ todo) :
    Accounts { s with loop := pendingDone s.loop t, stage := stage } todo := by
  intro u asked hasked
  have haccount : Account s todo u asked := h u asked hasked
  rcases eq_or_ne u t with rfl | hu
  · obtain ⟨hrepeats, hcb, -⟩ := pendingDone_self s.loop u
    refine haccount.keep hrepeats hcb rfl Iff.rfl ?_ fun hmem => absurd hmem hnot
    rw [pendingDone_timers]
  · refine haccount.same (pendingDone_others hu) rfl Iff.rfl ?_
    rw [pendingDone_timers]

theorem FiringGuard.keepsTop {a : FiringAction} (h : FiringGuard s a) : KeepsTop s a := by
  cases a with
  | op op =>
      cases op with
      | resetTimer t timeout =>
          intro hdestory
          have hguard : ResetGuard s.loop t := h
          rwa [ResetGuard, if_neg (by simp [hdestory])] at hguard
      | _ => trivial
  | _ => trivial

theorem Accounts.step {a : FiringAction} (h : Accounts s todo) (hsound : s.Scheduled todo)
    (hguard : FiringGuard s a) (hstep : s.step a = some s') :
    Accounts s' (todoAfter s todo a) := by
  cases a with
  | op op =>
      simp only [FiringSystem.step, Option.ite_none_right_eq_some] at hstep
      exact h.runOp hsound hguard hstep.2
  | processTimer =>
      simp only [FiringSystem.step, Option.ite_none_right_eq_some] at hstep
      obtain rfl := Option.some.inj hstep.2
      exact fun u asked hasked => (h u asked hasked).same rfl rfl Iff.rfl Iff.rfl
  | turn =>
      obtain ⟨hstage, t, rest, harray, hturn⟩ := step_turn hsound.loop.bounded hstep
      simp only [todoAfter, harray]
      rcases hturn with ⟨hlater, rfl⟩ | ⟨hdue, ⟨hlast, rfl⟩ | ⟨hmore, rfl⟩⟩
      · rw [if_neg fun hlast => hlater.not_ge hlast.1]
        exact fun u asked hasked => (h u asked hasked).same rfl rfl Iff.rfl Iff.rfl
      · rw [if_pos ⟨hdue, hlast⟩]
        exact h.expireLast hsound hstage harray hlast
      · rw [if_neg fun hlast => hmore hlast.2]
        exact h.expireAgain hsound harray hmore
          (hguard t (heapTop_eq_some_iff.mpr ⟨rest, harray⟩) hdue)
  | processPendingEvent =>
      simp only [FiringSystem.step, Option.ite_none_right_eq_some] at hstep
      obtain rfl := Option.some.inj hstep.2
      exact fun u asked hasked => (h u asked hasked).same rfl rfl Iff.rfl Iff.rfl
  | visit =>
      have hloop := hsound.loop
      rcases step_visit hstep with ⟨hstage, rfl⟩ | ⟨cur, hstage, ⟨hcb, rfl⟩ | ⟨-, rfl⟩⟩
      · rw [FiringSystem.head, hstage] at hloop
        have htodo : todoAfter s todo .visit = todo := by
          rw [hloop.todo_nil]
          rfl
        rw [htodo]
        exact fun u asked hasked => (h u asked hasked).same rfl rfl Iff.rfl Iff.rfl
      · rw [FiringSystem.head, hstage] at hloop
        obtain ⟨-, rest, rfl, -⟩ := hloop.tail
        intro u asked hasked
        have haccount := h u asked hasked
        refine haccount.same rfl rfl ?_ Iff.rfl
        rw [List.mem_cons]
        refine (or_iff_right ?_).symm
        rintro rfl
        exact haccount.cb hcb
      · rw [FiringSystem.head, hstage] at hloop
        obtain ⟨-, rest, rfl, hnot⟩ := hloop.tail
        exact h.visit hnot
  | ret =>
      rcases step_ret hstep with ⟨t, -, rfl⟩ | ⟨cur, next, hstage, rfl⟩
      · exact fun u asked hasked => (h u asked hasked).same rfl rfl Iff.rfl Iff.rfl
      · exact h.ret (hsound.current cur next hstage)

/-! ## Runs -/

/-- In every run that meets the guard, every timer fires as often as it was asked to. -/
theorem fires_as_asked (cur_ms timers_num : ℕ) (timer : ℕ → Timer) (epoll : EpollSet)
    (run : List FiringAction)
    (h : Meets FiringSystem.step FiringGuard (.start cur_ms timers_num timer epoll) run) :
    Along FiringSystem.step FiresAsAsked (.start cur_ms timers_num timer epoll) run := by
  let good (s : FiringSystem) : Prop := ∃ todo, s.Scheduled todo ∧ Accounts s todo
  have hstart : good (.start cur_ms timers_num timer epoll) :=
    ⟨[], scheduled_start cur_ms timers_num timer epoll, fun t asked hasked => by cases hasked⟩
  have hgood : Along FiringSystem.step good (.start cur_ms timers_num timer epoll) run := by
    refine along_of_meets ?_ hstart h
    rintro s a s' ⟨todo, hsound, haccounts⟩ hguard hstep
    exact ⟨_, hsound.step hguard.keepsTop hstep, haccounts.step hsound hguard hstep⟩
  refine hgood.mono ?_
  rintro s ⟨todo, hsound, haccounts⟩ t asked hasked
  exact (haccounts t asked hasked).asAsked hsound.loop.ordered.nodup

/-- Timer 7 goes off twice, at 10 and at 20, and timer 8 is there to stop `process_timer`. -/
def twiceRun : List FiringAction :=
  [.op (.addTimer 10 (some (.user 0)) 2 0 (some 7)), .op (.addTimer 1000 none 0 0 (some 8)),
    .op (.tick 10), .processTimer, .turn, .ret, .turn, .processPendingEvent, .visit,
    .op (.tick 20), .processTimer, .turn, .turn, .processPendingEvent, .visit, .ret, .visit]

theorem fires_as_asked_twice :
    Along FiringSystem.step FiresAsAsked (.start 0 0 (fun _ => Timer.zero) fun _ => none)
      twiceRun :=
  fires_as_asked 0 0 (fun _ => Timer.zero) (fun _ => none) twiceRun (by decide +kernel)

/-- Timer 7 arms itself again in its callback, and goes off a second time. -/
def rearmedRun : List FiringAction :=
  [.op (.addTimer 10 (some .readTimeout) 1 0 (some 7)), .op (.setPrivdata 7 0),
    .op (.addTimer 1000 none 0 0 (some 8)), .op (.tick 10), .processTimer, .turn, .turn,
    .processPendingEvent, .visit, .op (.resetTimer 7 10), .ret, .visit, .op (.tick 20),
    .processTimer, .turn]

/-- From then on it goes off forever. -/
theorem not_fires_as_asked_rearmed :
    ¬ Along FiringSystem.step FiresAsAsked (.start 0 0 (fun _ => Timer.zero) fun _ => none)
      rearmedRun := by
  intro h
  have hend : ∃ s, exec FiringSystem.step (.start 0 0 (fun _ => Timer.zero) fun _ => none)
      rearmedRun = some s ∧ s.asked 7 = some 2 ∧ (s.loop.timer 7).repeats = uint32Max := by
    refine ⟨(exec FiringSystem.step (.start 0 0 (fun _ => Timer.zero) fun _ => none)
      rearmedRun).get (by decide +kernel), (Option.some_get _).symm, ?_⟩
    decide +kernel
  obtain ⟨s, hs, hasked, hforever⟩ := hend
  exact (h.exec hs 7 2 hasked).counter hforever

end LibConn
